import DemandPaging.Proofs.Ledger

/-!
Disjoint regions. As long as no page is registered within a region and no region is recorded over what is there, the
regions of a space do not overlap, the pages in a region are those of its mapping, and each address is found in the
region around it, whichever pages are removed and wherever copying fails.
-/

namespace DemandPaging

/-- However far the copying of `src` into `dst` came on the way from `s` to `t`: regions stay, those that came are
those of `src`, and where a page came, all regions of `src` had come. -/
structure System.CopiesInPart (s : System) (dst src : SpaceId) (t : System) : Prop where
  kept : ∀ {p r}, s.region? p = some r → t.region? p = some r
  came : ∀ {p r}, t.region? p = some r →
    s.region? p = some r ∨ p = ⟨dst, r.start⟩ ∧ ∃ va, s.region? ⟨src, va⟩ = some r
  page : ∀ {va}, s.page? ⟨dst, va⟩ = none → (t.page? ⟨dst, va⟩).isSome →
    (s.page? ⟨src, va⟩).isSome ∧ ∀ {a r}, s.region? ⟨src, a⟩ = some r → t.region? ⟨dst, r.start⟩ = some r

/-- What was copied as a whole was copied in part. -/
theorem System.Duplicates.copiesInPart {s t : System} {dst src : SpaceId} (h : s.Duplicates dst src t) :
    s.CopiesInPart dst src t where
  kept hr := (h.regions ..).2 (.inl hr)
  came hr := (h.regions ..).1 hr
  page {va} hnone hsome := by
    refine ⟨?_, fun hr => (h.regions ..).2 (.inr ⟨rfl, _, hr⟩)⟩
    by_contra hsrc
    have hnature := congrArg Option.isSome (h.pages.kept (p := ⟨dst, va⟩) fun e => hsrc e.2).2
    rw [View.isSome_natureOf, View.isSome_natureOf] at hnature
    have hgone : (s.page? ⟨dst, va⟩).isSome := hnature.symm.trans hsome
    rw [hnone] at hgone
    cases hgone

namespace Trace

variable {v w : View} {ds : List Deed} {dst src : SpaceId}

/-- Copying records no regions but those of the space that is copied, and forgets none. -/
theorem regions_of_copies (h : Trace v ds w) (hds : ∀ d ∈ ds, d.IsOfCopy dst src) :
    (∀ p r, v.regions p = some r → w.regions p = some r) ∧ ∀ p r, w.regions p = some r →
      v.regions p = some r ∨ p = ⟨dst, r.start⟩ ∧ ∃ va, v.regions ⟨src, va⟩ = some r := by
  induction h with
  | done => exact ⟨fun _ _ hr => hr, fun _ _ hr => .inl hr⟩
  | upkeep hstep _ ih =>
    rw [← hstep.same.2.2.1]
    exact ih hds
  | deed hdeed _ ih =>
    obtain ⟨hkept, hcame⟩ := ih fun d hd => hds d (List.mem_cons_of_mem _ hd)
    obtain ⟨va, r, rfl⟩ | ⟨va, page, rfl⟩ := hds _ (List.mem_cons_self ..)
    · cases hdeed with
      | inherit _ hfree hsrc =>
        refine ⟨fun p r' hr => hkept p r' ((View.setRegion_regions_eq_some_iff hfree).2 (.inl hr)), fun p r' hr => ?_⟩
        obtain hr | ⟨rfl, va', hr⟩ := hcame p r' hr
        · refine ((View.setRegion_regions_eq_some_iff hfree).1 hr).imp_right ?_
          rintro ⟨rfl, rfl⟩
          exact ⟨rfl, va, hsrc⟩
        · obtain hr | ⟨_, rfl⟩ := (View.setRegion_regions_eq_some_iff hfree).1 hr
          · exact .inr ⟨rfl, va', hr⟩
          · exact .inr ⟨rfl, va, hsrc⟩
    · rw [hdeed.regions_eq] at hkept hcame
      exact ⟨hkept, hcame⟩

/-- Where copying makes a page, the space that is copied had one. -/
theorem isSome_of_copy (h : Trace v ds w) (hds : ∀ d ∈ ds, d.IsOfCopy dst src) (hne : src ≠ dst) {va : VirtAddr}
    {page : PageEntry} (hmem : .copy ⟨dst, va⟩ ⟨src, va⟩ page ∈ ds) : (v.pages ⟨src, va⟩).isSome := by
  obtain ⟨es, fs, rfl⟩ := List.append_of_mem hmem
  obtain ⟨x, _, hbefore, hdoes, _⟩ := h.split
  have hspared (d : Deed) (hd : d ∈ es) : ¬ d.IsAbout ⟨src, va⟩ := by
    obtain ⟨va', r, rfl⟩ | ⟨va', page', rfl⟩ := hds d (List.mem_append_left _ hd)
    · exact not_false
    · exact fun e => hne (congrArg PageId.space e).symm
  cases hdoes with
  | copy _ hmirrors =>
    obtain ⟨original, _, horiginal, _⟩ := hmirrors
    rw [← View.isSome_natureOf, ← hbefore.natureOf_eq hspared, horiginal]
    rfl

end Trace

namespace Paging

variable {s : System}

/-- Copying, whether it succeeds or fails, comes to a copy in part. -/
theorem performs_duplicate_copiesInPart (hs : s.WellFormed) (hv : s.view.Sound) {dst src : SpaceId}
    (hlive : s.view.live dst) (hne : src ≠ dst) :
    Performs (duplicate dst src) s fun _ _ t => s.CopiesInPart dst src t := by
  have hduplicate := performs_duplicate_of hs hv hlive (R := fun _ => True) (fun _ _ h => h)
    fun ds t ht hv' hlive' _ _ _ => (performs_duplicatePages ht hv' hlive' hne _).mono
      fun r es u hr => ⟨fun d hd => hr.1 d hd, fun _ _ => trivial⟩
  refine hduplicate.and_trace.mono fun r ds t ⟨htrace, hds, hall, _⟩ => ?_
  obtain ⟨hkept, hcame⟩ := htrace.regions_of_copies hds
  refine ⟨hkept _ _, hcame _ _, fun {va} hnone hsome => ?_⟩
  -- A page appears by a deed, and only the copy of a page adds one.
  obtain ⟨page, hmem⟩ : ∃ page, Deed.copy ⟨dst, va⟩ ⟨src, va⟩ page ∈ ds := by
    by_contra hnot
    have hgone : t.page? ⟨dst, va⟩ = none := htrace.pages_eq_none (fun d hd hadds => ?_) hnone
    · rw [hgone] at hsome
      cases hsome
    · obtain ⟨va', r, rfl⟩ | ⟨va', page, rfl⟩ := hds d hd
      · exact hadds
      · obtain rfl : va' = va := congrArg PageId.va hadds
        exact hnot ⟨page, hd⟩
  exact ⟨htrace.isSome_of_copy hds hne hmem, hall hmem⟩

end Paging

/-- Each region of the address space `id` is that of a mapping that made the pages in it, the pages that were made by a
mapping are within its region, and no two regions overlap. -/
structure Tidy (maker : PageId → Option Mapping) (id : SpaceId) (v : View) : Prop where
  region : ∀ {p r}, p.space = id → v.regions p = some r → ∃ m size, m.Fits size ∧ m.origin = p ∧ m.region = r ∧
    ∀ q, m.IsPlace q → (v.pages q).isSome → maker q = some m
  page : ∀ {p m}, p.space = id → maker p = some m → m.IsPlace p ∧ v.regions m.origin = some m.region
  apart : ∀ {p q r r'}, p.space = id → q.space = id → v.regions p = some r → v.regions q = some r' → p ≠ q →
    r.limit ≤ r'.start.toNat ∨ r'.limit ≤ r.start.toNat

theorem Mapping.Fits.start_lt_limit {m : Mapping} {size : Nat} (h : m.Fits size) :
    m.region.start.toNat < m.region.limit :=
  (Mapping.contains_of_isPlace (Mapping.isPlace_origin h)).2

namespace Tidy

open Ledger

variable {L : Ledger} {s t : System} {c : Call} {r : Except Failure Answer} {ds : List Deed} {id src : SpaceId}
  {m : Mapping}

theorem of_isBare {maker : PageId → Option Mapping} (h : s.IsBare id)
    (hpresent : ∀ {p m}, maker p = some m → (s.page? p).isSome) : Tidy maker id s.view := by
  obtain ⟨hregion, hpage⟩ := LaidOut.of_isBare h hpresent
  refine ⟨fun hp hr => ?_, hpage, fun {p q r r'} hp _ hr => ?_⟩
  · obtain ⟨m, size, hfits, horigin, hmregion, hplaces⟩ := hregion hp hr
    exact ⟨m, size, hfits, horigin, hmregion, fun q hq _ => (hplaces q hq).2⟩
  · subst hp
    rw [show s.view.regions p = none from (h p.va).2] at hr
    cases hr

/-- A call that respects what is there leaves a space tidy if it makes pages only within regions that it records, records
those apart from each other, and does not forget the region of a page that stays. -/
theorem after (h : Tidy L.maker id s.view) (hrespects : s.Respects id t)
    (hkept : ∀ {p m}, p.space = id → L.maker p = some m → (t.page? p).isSome → s.region? m.origin = some m.region →
      (t.region? m.origin).isSome)
    (hmade : ∀ {p m}, p.space = id → s.page? p = none → (t.page? p).isSome → L.made s r.toBool p c = some m →
      m.IsPlace p ∧ t.region? m.origin = some m.region)
    (hnew : ∀ {p r'}, p.space = id → t.region? p = some r' → s.region? p ≠ some r' →
      ∃ m size, m.Fits size ∧ m.origin = p ∧ m.region = r' ∧ ∀ q, m.IsPlace q → s.page? q = none →
        (t.page? q).isSome → L.made s r.toBool q c = some m)
    (hapart : ∀ {p q r₁ r₂}, p.space = id → q.space = id → t.region? p = some r₁ → t.region? q = some r₂ →
      s.region? p ≠ some r₁ → s.region? q ≠ some r₂ → p ≠ q → r₁.limit ≤ r₂.start.toNat ∨ r₂.limit ≤ r₁.start.toNat) :
    Tidy (L.after s c r t).maker id t.view := by
  refine ⟨fun {p r'} hp hr' => ?_, fun {p m} hp hm => ?_, fun {p q r₁ r₂} hp hq hr₁ hr₂ hne => ?_⟩
  · by_cases hold : s.region? p = some r'
    · obtain ⟨m, size, hfits, horigin, rfl, hplaces⟩ := h.region hp hold
      refine ⟨m, size, hfits, horigin, rfl, fun q hq ht => ?_⟩
      cases hs : s.page? q with
      | some page =>
        have hsome : (s.page? q).isSome := by rw [hs]; rfl
        exact (maker_after_of_isSome hsome ht).trans (hplaces q hq hsome)
      | none =>
        obtain ⟨space, va⟩ := q
        subst hp horigin
        obtain rfl : space = m.space := hq.space_eq
        exact absurd (Mapping.contains_of_isPlace hq) (hrespects.page hs ht hold)
    · obtain ⟨m, size, hfits, horigin, rfl, hplaces⟩ := hnew hp hr' hold
      refine ⟨m, size, hfits, horigin, rfl, fun q hq ht => ?_⟩
      cases hs : s.page? q with
      | some page =>
        obtain ⟨space, va⟩ := q
        subst hp horigin
        obtain rfl : space = m.space := hq.space_eq
        exact absurd (Mapping.contains_of_isPlace hq) (hrespects.over_page hr' hold (hs ▸ rfl))
      | none => exact (maker_after_of_eq_none hs ht).trans (hplaces q hq hs ht)
  · obtain ⟨ht, ⟨_, hmaker⟩ | ⟨hs, hmaker⟩⟩ := of_maker_after hm
    · obtain ⟨hplace, hregion⟩ := h.page hp hmaker
      obtain rfl : m.space = id := hplace.space_eq.symm.trans hp
      obtain ⟨r', hr'⟩ := Option.isSome_iff_exists.1 (hkept hp hmaker ht hregion)
      refine ⟨hplace, hr'.trans ?_⟩
      by_contra hother
      have hnot : s.region? m.origin ≠ some r' := fun e => hother (e.symm.trans hregion)
      -- It would be another region with the same start, recorded over the one of the page.
      obtain ⟨m₁, _, hfits₁, horigin₁, rfl, _⟩ := hnew rfl hr' hnot
      obtain ⟨m₂, _, hfits₂, _, hregion₂, _⟩ := h.region rfl hregion
      have hstart : m₁.region.start = m.region.start := congrArg PageId.va horigin₁
      have hapart := hrespects.over_region hr' hnot hregion
      have hlimit₁ := hfits₁.start_lt_limit
      have hlimit₂ := hfits₂.start_lt_limit
      rw [hregion₂] at hlimit₂
      rw [hstart] at hapart hlimit₁
      omega
    · exact hmade hp hs ht hmaker
  · obtain ⟨space, va⟩ := p
    obtain ⟨space', va'⟩ := q
    obtain rfl : space = id := hp
    obtain rfl : space' = space := hq
    by_cases hs₁ : s.region? ⟨space', va⟩ = some r₁
    · by_cases hs₂ : s.region? ⟨space', va'⟩ = some r₂
      · exact h.apart rfl rfl hs₁ hs₂ hne
      · exact (hrespects.over_region hr₂ hs₂ hs₁).symm
    · by_cases hs₂ : s.region? ⟨space', va'⟩ = some r₂
      · exact hrespects.over_region hr₁ hs₁ hs₂
      · exact hapart rfl rfl hr₁ hr₂ hs₁ hs₂ hne

/-- Where regions stay as they are and no page is made by a mapping, a space stays tidy. -/
theorem after_of_regions_eq (h : Tidy L.maker id s.view) (hrespects : s.Respects id t)
    (hregions : ∀ {p}, p.space = id → t.region? p = s.region? p)
    (hmade : ∀ {p m}, p.space = id → s.page? p = none → (t.page? p).isSome →
      L.made s r.toBool p c = some m → False) : Tidy (L.after s c r t).maker id t.view := by
  refine h.after hrespects (fun {p m} hp hm _ hregion => ?_) (fun hp hs ht hm => (hmade hp hs ht hm).elim)
    (fun hp hr hnot => absurd ((hregions hp).symm.trans hr) hnot)
    fun hp _ hr _ hnot _ _ => absurd ((hregions hp).symm.trans hr) hnot
  rw [hregions ((h.page hp hm).1.space_eq.symm.trans hp), hregion]
  rfl

/-- A call leaves other address spaces as they are. -/
theorem after_of_ne (h : Tidy L.maker id s.view) (hrespects : s.Respects id t) (htrace : Trace s.view ds t.view)
    (hexplains : c.Explains s r ds t) (hid : c.target? s ≠ some id) : Tidy (L.after s c r t).maker id t.view := by
  have hspares {p : PageId} (hp : p.space = id) (d : Deed) (hd : d ∈ ds) : d.SparesRegion p ∧ ¬ d.IsAbout p :=
    (hexplains.allowed d hd).spares_of_ne (hp ▸ hid)
  refine h.after_of_regions_eq hrespects (fun hp => htrace.region_eq_of_spares fun d hd => (hspares hp d hd).1)
    fun {p m} hp hs ht _ => ?_
  have hnature := congrArg Option.isSome (htrace.natureOf_eq fun d hd => (hspares hp d hd).2)
  rw [View.isSome_natureOf, View.isSome_natureOf] at hnature
  have hsome : (s.page? p).isSome := hnature.symm.trans ht
  rw [hs] at hsome
  cases hsome

/-- A call that records and forgets no region leaves a space tidy. -/
theorem after_of_spares (h : Tidy L.maker id s.view) (hrespects : s.Respects id t) (htrace : Trace s.view ds t.view)
    (hexplains : c.Explains s r ds t) (hc : c.SparesRegions) : Tidy (L.after s c r t).maker id t.view := by
  refine h.after_of_regions_eq hrespects
    (fun {p} _ => htrace.region_eq_of_spares fun d hd => (hexplains.allowed d hd).sparesRegion hc p)
    fun {p m} _ _ _ hm => ?_
  cases c with
  | mmap => exact hc
  | fork => exact hc
  | duplicate => exact hc
  | _ => cases hm

theorem after_mmap (hs : s.WellFormed) (hv : s.view.Sound) {start : VirtAddr} {length : Nat} {writable : Bool}
    {file : FileId} {offset : Nat} (hc : c = .mmap id start length writable file offset) (hadmissible : c.Admissible s)
    (h : Tidy L.maker id s.view) (hrespects : s.Respects id (c.outcome s).2) :
    Tidy (L.after s c (c.outcome s).1 (c.outcome s).2).maker id (c.outcome s).2.view := by
  subst hc
  set m := Mapping.ofRequest id start length writable file offset (s.file file).size with hm
  obtain ⟨_, ds, htrace, hr⟩ := (LaidOut.performs_run_mmap hs hv (hadmissible.space _ rfl) hm).outcome
  generalize (Call.mmap id start length writable file offset).outcome s = o at hrespects htrace hr ⊢
  obtain ⟨f | a, t⟩ := o
  · obtain ⟨k, rfl⟩ := hr
    refine h.after_of_regions_eq hrespects (fun {p} _ => htrace.region_eq_of_spares fun d hd => ?_)
      fun _ _ _ hm => by cases hm
    obtain ⟨i, _, rfl⟩ := List.mem_map.1 hd
    exact fun _ => rfl
  obtain ⟨hfits, hfree, rfl⟩ := hr
  have hself : t.region? m.origin = some m.region :=
    (congrFun htrace.regions_of_mapping m.origin).trans (Function.update_self ..)
  have hother {p : PageId} (hp : p ≠ m.origin) : t.region? p = s.region? p :=
    (congrFun htrace.regions_of_mapping p).trans (Function.update_of_ne hp ..)
  have horigin {p : PageId} {r : Region} (hr : t.region? p = some r) (hnot : s.region? p ≠ some r) : p = m.origin := by
    by_contra hp
    exact hnot ((hother hp).symm.trans hr)
  refine h.after hrespects (fun {p m'} _ _ _ hregion => ?_) (fun {p m'} _ hnone hsome hmade => ?_)
    (fun {p r} _ hr hnot => ?_) fun _ _ hr₁ hr₂ hnot₁ hnot₂ hne => ?_
  · by_cases hp : m'.origin = m.origin
    · rw [hp, hself]
      rfl
    · rw [hother hp, hregion]
      rfl
  · obtain rfl : m = m' := Option.some.inj hmade
    exact ⟨htrace.isPlace_of_mapping hnone hsome, hself⟩
  · obtain rfl := horigin hr hnot
    exact ⟨m, _, hfits, rfl, Option.some.inj (hself.symm.trans hr), fun _ _ _ _ => rfl⟩
  · exact absurd ((horigin hr₁ hnot₁).trans (horigin hr₂ hnot₂).symm) hne

/-- With a region all pages in it go. -/
theorem forgets_of_munmap (hs : s.WellFormed) (hv : s.view.Sound) (id : SpaceId) (va : VirtAddr) :
    (∀ p, ((Call.munmap id va).outcome s).2.region? p = if p = ⟨id, va⟩ then none else s.region? p) ∧
      ∀ {r a}, s.region? ⟨id, va⟩ = some r → a ∈ r.addrs →
        ((Call.munmap id va).outcome s).2.page? ⟨id, a.pageDown⟩ = none := by
  have hmunmap := Paging.performs_munmap hs hv id va
  cases hr : s.view.regions ⟨id, va⟩ with
  | none =>
    simp only [hr] at hmunmap
    have hperforms : Paging.Performs (Call.munmap id va).run s fun _ ds _ => ds = [] :=
      hmunmap.bind_pure (fun _ _ _ hr => hr.1) fun _ _ _ hr => hr.1
    obtain ⟨_, ds, htrace, rfl⟩ := hperforms.outcome
    refine ⟨fun p => ?_, fun h => by rw [show s.region? ⟨id, va⟩ = none from hr] at h; cases h⟩
    refine (htrace.region_eq_of_spares (by simp)).trans ?_
    split
    next hp => exact hp ▸ hr
    next => rfl
  | some region =>
    simp only [hr] at hmunmap
    have hperforms : Paging.Performs (Call.munmap id va).run s fun _ _ t =>
        (s.view.setRegion ⟨id, va⟩ none).Freed (fun p => ∃ a ∈ region.addrs, p = ⟨id, a.pageDown⟩) t.view :=
      hmunmap.bind_pure (fun _ _ _ hr => hr.2.1) fun _ _ _ hr => hr.2.1
    obtain ⟨_, ds, _, hfreed⟩ := hperforms.outcome
    refine ⟨fun p => (congrFun hfreed.regions p).trans (Function.update_apply ..), fun {r a} h ha => ?_⟩
    obtain rfl : region = r := Option.some.inj (hr.symm.trans h)
    exact (hfreed.gone ⟨a, ha, rfl⟩).1

theorem after_munmap (hs : s.WellFormed) (hv : s.view.Sound) {va : VirtAddr} (hc : c = .munmap id va)
    (h : Tidy L.maker id s.view) (hrespects : s.Respects id (c.outcome s).2) :
    Tidy (L.after s c (c.outcome s).1 (c.outcome s).2).maker id (c.outcome s).2.view := by
  subst hc
  obtain ⟨hregions, hgone⟩ := forgets_of_munmap hs hv id va
  have hstays {p : PageId} {r : Region} (hr : ((Call.munmap id va).outcome s).2.region? p = some r) :
      s.region? p = some r := by
    rw [hregions] at hr
    split at hr
    · cases hr
    · exact hr
  refine h.after hrespects (fun {p m} hp hm hsome hregion => ?_) (fun _ _ _ hm => by cases hm)
    (fun _ hr hnot => absurd (hstays hr) hnot) fun _ _ hr _ hnot _ _ => absurd (hstays hr) hnot
  rw [hregions, if_neg fun horigin => ?_, hregion]
  · rfl
  · -- The page would have gone with the region of its mapping.
    obtain ⟨hplace, _⟩ := h.page hp hm
    obtain ⟨m', _, hfits, horigin', hregion', _⟩ := h.region (hplace.space_eq.symm.trans hp) hregion
    have hplace' := hplace.of_region_eq horigin' hregion'
    obtain ⟨a, ha, rfl⟩ := (Mapping.isPlace_iff hfits.start_aligned).1 hplace'
    rw [hregion'] at ha
    rw [show (⟨m'.space, a.pageDown⟩ : PageId) = ⟨id, a.pageDown⟩ from congrArg (PageId.mk · _) hp,
      hgone (horigin ▸ hregion) ha] at hsome
    cases hsome

/-- A tidy space into which a tidy one is copied stays tidy, however far the copying comes. -/
theorem after_copy (h : Tidy L.maker id s.view) (hsrc : Tidy L.maker src s.view) (hrespects : s.Respects id t)
    (hcopies : s.CopiesInPart id src t)
    (hmade : ∀ {va}, L.made s r.toBool ⟨id, va⟩ c = (L.maker ⟨src, va⟩).map (·.into id)) :
    Tidy (L.after s c r t).maker id t.view := by
  have hcame {p : PageId} {r : Region} (hr : t.region? p = some r) (hnot : s.region? p ≠ some r) :
      p = ⟨id, r.start⟩ ∧ s.region? ⟨src, r.start⟩ = some r := by
    obtain ⟨hp, va, hva⟩ := (hcopies.came hr).resolve_left hnot
    obtain ⟨m, _, _, horigin, rfl, _⟩ := hsrc.region rfl hva
    obtain rfl : m.start = va := congrArg PageId.va horigin
    exact ⟨hp, hva⟩
  refine h.after hrespects (fun _ _ _ hregion => by rw [hcopies.kept hregion]; rfl)
    (fun {p m} hp hnone hsome hm => ?_) (fun {p r} hp hr hnot => ?_) fun {p q r₁ r₂} _ _ hr₁ hr₂ hnot₁ hnot₂ hne => ?_
  · obtain ⟨space, va⟩ := p
    obtain rfl : space = id := hp
    rw [hmade] at hm
    obtain ⟨m, hmaker, rfl⟩ := Option.map_eq_some_iff.1 hm
    obtain ⟨⟨i, hi, hplace⟩, hregion⟩ := hsrc.page rfl hmaker
    obtain rfl : src = m.space := congrArg PageId.space hplace
    refine ⟨⟨i, hi, ?_⟩, (hcopies.page hnone hsome).2 hregion⟩
    rw [show va = m.addr i from congrArg PageId.va hplace]
    rfl
  · obtain ⟨rfl, hr'⟩ := hcame hr hnot
    obtain ⟨m, size, hfits, horigin, rfl, hplaces⟩ := hsrc.region rfl hr'
    refine ⟨m.into id, size, hfits.into id, rfl, rfl, fun q hq hnone hsome => ?_⟩
    obtain ⟨i, hi, rfl⟩ := hq
    have hspace : m.space = src := congrArg PageId.space horigin
    have hmaker := hplaces (m.place i) ⟨i, hi, rfl⟩ (by
      rw [Mapping.place, hspace]
      exact (hcopies.page hnone hsome).1)
    rw [Mapping.place, hspace] at hmaker
    refine hmade.trans ?_
    rw [show (m.into id).addr i = m.addr i from rfl, hmaker, Option.map_some]
  · obtain ⟨rfl, hsrc₁⟩ := hcame hr₁ hnot₁
    obtain ⟨rfl, hsrc₂⟩ := hcame hr₂ hnot₂
    exact hsrc.apart rfl rfl hsrc₁ hsrc₂ fun e => hne (congrArg (PageId.mk id) (congrArg PageId.va e))

theorem after_duplicate (hs : s.WellFormed) (hv : s.view.Sound) (hc : c = .duplicate id src)
    (hadmissible : c.Admissible s) (h : Tidy L.maker id s.view) (hsrc : Tidy L.maker src s.view)
    (hrespects : s.Respects id (c.outcome s).2) :
    Tidy (L.after s c (c.outcome s).1 (c.outcome s).2).maker id (c.outcome s).2.view := by
  subst hc
  have hne : src ≠ id := fun e => (hadmissible.source _ rfl).2 (e ▸ rfl)
  have hperforms : Paging.Performs (Call.duplicate id src).run s fun _ _ t => s.CopiesInPart id src t :=
    (Paging.performs_duplicate_copiesInPart hs hv (hadmissible.space _ rfl) hne).bind_pure (fun _ _ _ hr => hr)
      fun _ _ _ hr => hr
  obtain ⟨_, _, _, hcopies⟩ := hperforms.outcome
  exact h.after_copy hsrc hrespects hcopies rfl

/-- A fork leaves a tidy copy, or nothing. -/
theorem after_fork (hs : s.WellFormed) (hv : s.view.Sound) {table : PageTable} (hc : c = .fork src table)
    (hadmissible : c.Admissible s) (hsrc : Tidy L.maker src s.view) (hpresent : ∀ {p m}, L.maker p = some m →
      (s.page? p).isSome) :
    Tidy (L.after s c (c.outcome s).1 (c.outcome s).2).maker s.nextSpace (c.outcome s).2.view := by
  subst hc
  have hbare := System.isBare_next hv
  obtain ⟨htable, hentries⟩ := hadmissible.table _ rfl
  obtain ⟨_, ds, htrace, hr⟩ := (LaidOut.performs_run_fork hs hv (hadmissible.space _ rfl) htable hentries).outcome
  have hv' := htrace.sound hv
  generalize (Call.fork src table).outcome s = o at hv' hr
  obtain ⟨f | a, t⟩ := o
  · exact of_isBare (System.isBare_of_not_live hv' (hr ▸ hv.not_live_next)) fun hm => (of_maker_after hm).1
  · exact (of_isBare hbare hpresent).after_copy hsrc (.of_isBare hbare t) hr.copiesInPart rfl

end Tidy

namespace Ledger

variable {L : Ledger} {s t : System} {c : Call} {r : Except Failure Answer} {id src : SpaceId}

/-- A space in which there is nothing is orderly. -/
theorem Kept.orderly_of_isBare (h : Kept s L) (hid : s.IsBare id) : L.orderly id := by
  induction h with
  | initial => trivial
  | call => exact .inl hid
  | device _ ht ih =>
    obtain ⟨files, refuses, hview, _⟩ := ht.view_eq
    refine ih fun va => ⟨?_, ?_⟩
    · exact (congrFun (congrArg View.pages hview) _).symm.trans (hid va).1
    · exact (congrFun (congrArg View.regions hview) _).symm.trans (hid va).2

/-- Pages may be removed from an orderly space, from within its regions as well. -/
theorem Kept.orderly_removePage (h : Kept s L) {va : VirtAddr} {id' : SpaceId}
    (hc : (Call.removePage id' va).Admissible s) (hid : L.orderly id) :
    (L.after s (.removePage id' va) r ((Call.removePage id' va).outcome s).2).orderly id := by
  obtain ⟨_, ds, htrace, hexplains⟩ := System.exists_explains h.reachable.wellFormed h.reachable.sound hc
  have hallowed (d : Deed) (hd : d ∈ ds) : d = .remove ⟨id', va.pageDown⟩ := hexplains.allowed d hd
  refine .inr ⟨hid, fun _ h => h.elim, .of_removal (fun a => ?_) fun a => ?_⟩
  · exact htrace.region_eq_of_spares fun d hd => hallowed d hd ▸ fun _ => rfl
  · exact htrace.pages_eq_none fun d hd => hallowed d hd ▸ not_false

/-- The copy of an orderly space is orderly. -/
theorem Kept.orderly_fork (h : Kept s L) {table : PageTable} (hsrc : L.orderly src) :
    (L.after s (.fork src table) r t).orderly s.nextSpace := by
  have hbare := System.isBare_next h.reachable.sound
  exact .inr ⟨h.orderly_of_isBare hbare, fun id ⟨hid, _⟩ => hid ▸ hsrc, .of_isBare hbare _⟩

/-- From one state in which a space is laid out to another, what was there was respected. -/
theorem respects_of_laidOut (hv : s.view.Sound) (hv' : t.view.Sound) (h : LaidOut L.maker id s.view)
    (h' : LaidOut (L.after s c r t).maker id t.view) : s.Respects id t := by
  have hpresent {a va : VirtAddr} {r : Region} (hr : s.region? ⟨id, a⟩ = some r) (hcontains : r.Contains va)
      (hva : va.offset = 0) : (s.page? ⟨id, va⟩).isSome := by
    obtain ⟨m, _, hfits, horigin, rfl, hplaces⟩ := h.region rfl hr
    obtain rfl : m.space = id := congrArg PageId.space horigin
    exact (hplaces _ (Mapping.isPlace_of_contains hfits.start_aligned hcontains hva)).1
  have haligned {a : VirtAddr} {r : Region} {maker : PageId → Option Mapping} {v : View} (h : LaidOut maker id v)
      (hr : v.regions ⟨id, a⟩ = some r) : r.start.offset = 0 ∧ r.start.toNat < r.limit := by
    obtain ⟨m, _, hfits, _, rfl, _⟩ := h.region rfl hr
    exact ⟨hfits.start_aligned, hfits.start_lt_limit⟩
  have hover {a va : VirtAddr} {r : Region} (hr : t.region? ⟨id, a⟩ = some r) (hnot : s.region? ⟨id, a⟩ ≠ some r)
      (hsome : (s.page? ⟨id, va⟩).isSome) : ¬ r.Contains va := fun hcontains => by
    obtain ⟨page, hpage⟩ := Option.isSome_iff_exists.1 hsome
    obtain ⟨m, _, hfits, horigin, rfl, hplaces⟩ := h'.region rfl hr
    obtain rfl : m.space = id := congrArg PageId.space horigin
    obtain ⟨ht, hmaker⟩ := hplaces _ (Mapping.isPlace_of_contains hfits.start_aligned hcontains (hv.page hpage).2.aligned)
    -- The page was made by the mapping, whose region was recorded all along.
    exact hnot (horigin ▸ (h.page rfl ((maker_after_of_isSome hsome ht).symm.trans hmaker)).2)
  refine ⟨fun {va a r} hnone hsome hr hcontains => ?_, hover, fun {a b r r'} hr hnot hr' => ?_⟩
  · obtain ⟨page, hpage⟩ := Option.isSome_iff_exists.1 hsome
    have hgone := hpresent hr hcontains (hv'.page hpage).2.aligned
    rw [hnone] at hgone
    cases hgone
  · by_contra hapart
    obtain ⟨hstart, hlimit⟩ := haligned h' hr
    obtain ⟨hstart', hlimit'⟩ := haligned h hr'
    -- The later one of the two starts would be that of a page within both.
    obtain hlt | hle := Nat.lt_or_ge r'.start.toNat r.start.toNat
    · exact hover hr hnot (hpresent hr' ⟨Nat.le_of_lt hlt, by omega⟩ hstart) ⟨Nat.le_refl _, hlimit⟩
    · exact hover hr hnot (hpresent hr' ⟨Nat.le_refl _, hlimit'⟩ hstart') ⟨hle, by omega⟩

/-- A space that is intact was so before, unless it was or is bare. -/
theorem intact_of_not_isBare (hs : s.WellFormed) (hv : s.view.Sound) (hc : c.Admissible s) {ok : Bool}
    (h : L.keepsIntact s ok id c) (hbare : ¬ s.IsBare id) (hbare' : ¬ (c.outcome s).2.IsBare id) : L.intact id := by
  cases c with
  | drop id' => exact h.resolve_left fun e => hbare' (e ▸ System.isBare_of_drop hs hv (e ▸ hc))
  | teardown id' => exact h.resolve_left fun e => hbare' (e ▸ System.isBare_of_teardown hs hv (e ▸ hc))
  | fork src table => exact h.2 fun e => hbare (e ▸ System.isBare_next hv)
  | duplicate dst src => exact h.1
  | removePage id' va => exact h.1
  | _ => exact h

theorem intact_of_copiesInto {ok : Bool} (h : L.keepsIntact s ok id c) (hc : c.CopiesInto s src id) :
    L.intact src := by
  cases c with
  | fork src' table =>
    obtain ⟨rfl, rfl⟩ := hc
    exact h.1 rfl
  | duplicate dst src' =>
    obtain ⟨rfl, rfl⟩ := hc
    exact (h.2 rfl).2
  | _ => exact hc.elim

/-- A space that is intact is orderly. -/
theorem Kept.orderly_of_intact (h : Kept s L) (hid : L.intact id) : L.orderly id := by
  induction h generalizing id with
  | initial => trivial
  | device _ _ ih => exact ih hid
  | @call s L h c hc ih =>
    have hs := h.reachable.wellFormed
    have hv := h.reachable.sound
    have hsrc (src : SpaceId) (hcopies : c.CopiesInto s src id) := ih (intact_of_copiesInto hid hcopies)
    by_cases hbare' : (c.outcome s).2.IsBare id
    · exact .inl hbare'
    by_cases hbare : s.IsBare id
    · exact .inr ⟨h.orderly_of_isBare hbare, hsrc, .of_isBare hbare _⟩
    have hold := intact_of_not_isBare hs hv hc hid hbare hbare'
    exact .inr ⟨ih hold, hsrc, respects_of_laidOut hv (h.call hc).reachable.sound (h.agrees.laidOut hold)
      ((h.call hc).agrees.laidOut hid)⟩

theorem Kept.tidy (h : Kept s L) (hid : L.orderly id) : Tidy L.maker id s.view := by
  induction h generalizing id with
  | initial h => exact .of_isBare (h.isBare id) fun hm => by cases hm
  | device h ht ih =>
    obtain ⟨files, refuses, hview, _⟩ := ht.view_eq
    obtain ⟨hregion, hpage, hapart⟩ := ih hid
    rw [hview]
    exact ⟨hregion, hpage, hapart⟩
  | @call s L h c hc ih =>
    have hs := h.reachable.wellFormed
    have hv := h.reachable.sound
    by_cases hbare : (c.outcome s).2.IsBare id
    · exact .of_isBare hbare fun hm => (of_maker_after hm).1
    obtain ⟨hold, hsrc, hrespects⟩ := Or.resolve_left hid hbare
    obtain ⟨_, ds, htrace, hexplains⟩ := System.exists_explains hs hv hc
    by_cases htarget : c.target? s = some id
    swap
    · exact (ih hold).after_of_ne hrespects htrace hexplains htarget
    cases c <;> try obtain rfl := Option.some.inj htarget
    case create => cases htarget
    case lend => cases htarget
    case giveBack => cases htarget
    case drop => exact absurd (System.isBare_of_drop hs hv hc) hbare
    case teardown => exact absurd (System.isBare_of_teardown hs hv hc) hbare
    case fork => exact .after_fork hs hv rfl hc (ih (hsrc _ ⟨rfl, rfl⟩)) h.agrees.present
    case duplicate => exact (ih hold).after_duplicate hs hv rfl hc (ih (hsrc _ ⟨rfl, rfl⟩)) hrespects
    case mmap => exact (ih hold).after_mmap hs hv rfl hc hrespects
    case munmap => exact (ih hold).after_munmap hs hv rfl hrespects
    all_goals exact (ih hold).after_of_spares hrespects htrace hexplains trivial

end Ledger

namespace Tidy

variable {maker : PageId → Option Mapping} {s : System} {id : SpaceId}

/-- Every address within a region is found to be in it. -/
theorem regionOf?_eq_some_iff (h : Tidy maker id s.view) (va : VirtAddr) (r : Region) :
    (s.space id).regionOf? va = some r ↔ (∃ a, s.region? ⟨id, a⟩ = some r) ∧ r.Contains va := by
  refine ⟨Space.contains_of_regionOf?, fun ⟨⟨a, hr⟩, hcontains⟩ => ?_⟩
  have hkeyed : (s.space id).Keyed := fun b r' hr' => by
    obtain ⟨m, size, _, horigin, rfl, _⟩ := h.region (p := ⟨id, b⟩) rfl hr'
    exact congrArg PageId.va horigin
  refine hkeyed.regionOf?_eq_some hr hcontains fun r' hmem hstart => ?_
  obtain ⟨b, hr'⟩ := mem_values.1 hmem
  by_cases hab : a = b
  · subst hab
    obtain rfl : r = r' := Option.some.inj (hr.symm.trans hr')
    exact Nat.le_refl _
  -- A region that starts later and still at `va` or below would overlap the one that contains `va`.
  obtain ⟨m, _, hfits, _, rfl, _⟩ := h.region (p := ⟨id, b⟩) rfl hr'
  have hlimit := hfits.start_lt_limit
  have hapart := h.apart (p := ⟨id, a⟩) (q := ⟨id, b⟩) rfl rfl hr hr' fun e => hab (congrArg PageId.va e)
  obtain ⟨_, hend⟩ := hcontains
  omega

/-- Unmapping a region removes only pages that were made by the mapping that is recorded there. -/
theorem maker_of_munmap (hs : s.WellFormed) (hv : s.view.Sound) (h : Tidy maker id s.view) {a : VirtAddr} {p : PageId}
    (hsome : (s.page? p).isSome) (hgone : ((Call.munmap id a).outcome s).2.page? p = none) :
    ∃ m, maker p = some m ∧ m.origin = ⟨id, a⟩ := by
  have hexplains : Paging.Performs (Call.munmap id a).run s fun r ds t => (Call.munmap id a).Explains s r ds t :=
    Paging.explains_munmap hs hv
  obtain ⟨_, ds, htrace, hexplains⟩ := hexplains.outcome
  have hremoved : .remove p ∈ ds := by
    by_contra hkept
    have hstays : (((Call.munmap id a).outcome s).2.page? p).isSome := (htrace.isSome_pages hkept hsome).1
    rw [hgone] at hstays
    cases hstays
  obtain hd | ⟨r, hr, b, hb, hd⟩ := hexplains.allowed _ hremoved
  · cases hd
  obtain ⟨m, _, hfits, horigin, rfl, hplaces⟩ := h.region rfl hr
  obtain rfl : m.space = id := congrArg PageId.space horigin
  exact ⟨m, hplaces p ((Mapping.isPlace_iff hfits.start_aligned).2 ⟨b, hb, Deed.remove.inj hd⟩) hsome, horigin⟩

end Tidy

namespace Ledger

variable {s : System} {L : Ledger} {id : SpaceId}

/-- In an orderly address space the regions do not overlap, the pages that a mapping made are in its region, each address
is found in the region around it, and unmapping a region removes no page but those of its mapping. If the space is
intact, each region has all its pages besides. -/
theorem Kept.regions_are_of_mappings (h : Kept s L) (hid : L.orderly id) :
    (∀ {a b r r'}, s.region? ⟨id, a⟩ = some r → s.region? ⟨id, b⟩ = some r' → a ≠ b →
      r.limit ≤ r'.start.toNat ∨ r'.limit ≤ r.start.toNat) ∧
    (L.intact id → ∀ {a r}, s.region? ⟨id, a⟩ = some r → ∀ b ∈ r.addrs, (s.page? ⟨id, b⟩).isSome) ∧
    (∀ {va m}, L.maker ⟨id, va⟩ = some m →
      s.region? m.origin = some m.region ∧ m.space = id ∧ m.region.Contains va) ∧
    (∀ va r, (s.space id).regionOf? va = some r ↔ (∃ a, s.region? ⟨id, a⟩ = some r) ∧ r.Contains va) ∧
    ∀ {a p}, (s.page? p).isSome → ((Call.munmap id a).outcome s).2.page? p = none →
      ∃ m, L.maker p = some m ∧ m.origin = ⟨id, a⟩ := by
  have htidy := h.tidy hid
  refine ⟨fun {a b r r'} hr hr' hne => ?_, fun hintact {a r} hr b hb => ?_, fun {va m} hm => ?_,
    htidy.regionOf?_eq_some_iff, htidy.maker_of_munmap h.reachable.wellFormed h.reachable.sound⟩
  · exact htidy.apart (p := ⟨id, a⟩) (q := ⟨id, b⟩) rfl rfl hr hr' fun e => hne (congrArg PageId.va e)
  · obtain ⟨m, size, hfits, rfl, _, rfl, hplaces⟩ := (h.agrees.laidOut hintact).exists_mapping rfl hr
    obtain ⟨i, hi, rfl⟩ := List.mem_map.1 hb
    exact h.agrees.present (hplaces (m.place i) ⟨i, List.mem_range.1 hi, rfl⟩)
  · obtain ⟨hplace, hregion⟩ := htidy.page rfl hm
    exact ⟨hregion, hplace.space_eq.symm, Mapping.contains_of_isPlace hplace⟩

/-- A small system with a file that takes three pages. -/
def threePages : System := .small { data := List.replicate 8193 1 }

theorem kept_threePages (cs : List Call) (hcs : threePages.Admits cs) :
    Kept (threePages.after cs) (Ledger.along {} threePages cs) :=
  (Kept.initial (System.initial_small _)).along hcs

/-- A page is removed from within a mapping, which is then copied with its space: each of the pages that are left is in
the region of the copy, and so is the place of the one that is gone. -/
theorem exists_regions_are_of_mappings : ∃ (s : System) (L : Ledger), Kept s L ∧ L.orderly 1 ∧
    (s.space 1).regionOf? ⟨0x11000⟩ = some ⟨⟨0x10000⟩, 3, 0⟩ ∧ s.page? ⟨1, ⟨0x11000⟩⟩ = none ∧
    ∃ m, L.maker ⟨1, ⟨0x12000⟩⟩ = some m ∧ s.region? m.origin = some m.region ∧ m.space = 1 ∧
      m.region.Contains ⟨0x12000⟩ := by
  have hmapped := kept_threePages [.create, .mmap 0 ⟨0x10000⟩ 8193 true 0 0] (by decide +kernel)
  have hremoved := kept_threePages [.create, .mmap 0 ⟨0x10000⟩ 8193 true 0 0, .removePage 0 ⟨0x11000⟩]
    (by decide +kernel)
  have hkept := kept_threePages
    [.create, .mmap 0 ⟨0x10000⟩ 8193 true 0 0, .removePage 0 ⟨0x11000⟩, .fork 0 {}] (by decide +kernel)
  have horderly : (Ledger.along {} threePages
      [.create, .mmap 0 ⟨0x10000⟩ 8193 true 0 0, .removePage 0 ⟨0x11000⟩, .fork 0 {}]).orderly 1 := by
    have hadmissible : (Call.removePage 0 ⟨0x11000⟩).Admissible
        (threePages.after [.create, .mmap 0 ⟨0x10000⟩ 8193 true 0 0]) := by decide +kernel
    have hnext : (threePages.after
        [.create, .mmap 0 ⟨0x10000⟩ 8193 true 0 0, .removePage 0 ⟨0x11000⟩]).nextSpace = 1 := by decide +kernel
    exact hnext ▸ hremoved.orderly_fork (hmapped.orderly_removePage hadmissible (hmapped.orderly_of_intact trivial))
  obtain ⟨_, _, hpage, hfound, _⟩ := Kept.regions_are_of_mappings hkept horderly
  refine ⟨_, _, hkept, horderly, ?_, ?_, ⟨1, ⟨0x10000⟩, true, 0, 0, 8193⟩, ?_, hpage ?_⟩
  · exact (hfound ..).2 ⟨⟨⟨0x10000⟩, by decide +kernel⟩, by decide, by decide⟩
  · decide +kernel
  · decide +kernel
  · decide +kernel

/-- A mapping in the place of a page that was removed from another one overlaps it. Then the other one's last page is
not found in its region, and unmapping it removes the page of the second one. -/
theorem exists_overlapping_regions : ∃ (s : System) (L : Ledger), Kept s L ∧
    (∃ r r', s.region? ⟨0, ⟨0x10000⟩⟩ = some r ∧ s.region? ⟨0, ⟨0x11000⟩⟩ = some r' ∧ r'.start.toNat < r.limit ∧
      (s.space 0).regionOf? ⟨0x12000⟩ = none ∧ r.Contains ⟨0x12000⟩) ∧
    ∃ m, L.maker ⟨0, ⟨0x11000⟩⟩ = some m ∧ m.origin = ⟨0, ⟨0x11000⟩⟩ ∧
      ((Call.munmap 0 ⟨0x10000⟩).outcome s).2.page? ⟨0, ⟨0x11000⟩⟩ = none := by
  have hkept := kept_threePages [.create, .mmap 0 ⟨0x10000⟩ 8193 true 0 0, .removePage 0 ⟨0x11000⟩,
    .mmap 0 ⟨0x11000⟩ 4096 true 0 0] (by decide +kernel)
  exact ⟨_, _, hkept, ⟨⟨⟨0x10000⟩, 3, 0⟩, ⟨⟨0x11000⟩, 1, 0⟩, by decide +kernel, by decide +kernel, by decide,
    by decide +kernel, by decide, by decide⟩, ⟨0, ⟨0x11000⟩, true, 0, 0, 4096⟩, by decide +kernel, rfl,
    by decide +kernel⟩

end Ledger

end DemandPaging
