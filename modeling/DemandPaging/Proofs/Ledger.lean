import DemandPaging.Proofs.Layout

/-!
The ledger of a run. It says which mapping made each page, and two things of an address space since it was empty last.
It is orderly as long as no page was registered within a region and no region was recorded over what was there. It is
intact as long as no page was removed from a region and no copying into it failed: then it is orderly too.
-/

namespace DemandPaging

/-- There is nothing in the address space. -/
def System.IsBare (s : System) (id : SpaceId) : Prop := ∀ va, s.page? ⟨id, va⟩ = none ∧ s.region? ⟨id, va⟩ = none

/-- On the way from `s` to `t`, no page of `id` appeared within a region that was recorded, and no region was recorded
over a page or another region. -/
structure System.Respects (s : System) (id : SpaceId) (t : System) : Prop where
  page : ∀ {va a r}, s.page? ⟨id, va⟩ = none → (t.page? ⟨id, va⟩).isSome → s.region? ⟨id, a⟩ = some r →
    ¬ r.Contains va
  over_page : ∀ {a r va}, t.region? ⟨id, a⟩ = some r → s.region? ⟨id, a⟩ ≠ some r → (s.page? ⟨id, va⟩).isSome →
    ¬ r.Contains va
  over_region : ∀ {a b r r'}, t.region? ⟨id, a⟩ = some r → s.region? ⟨id, a⟩ ≠ some r → s.region? ⟨id, b⟩ = some r' →
    r.limit ≤ r'.start.toNat ∨ r'.limit ≤ r.start.toNat

namespace System

variable {s t : System} {id : SpaceId}

/-- Where there is no address space, there are neither pages nor regions. -/
theorem isBare_of_not_live (hv : s.view.Sound) (hid : ¬ s.view.live id) : s.IsBare id := fun _ =>
  ⟨Option.eq_none_iff_forall_not_mem.2 fun _ hpage => hid (hv.page hpage).1,
    Option.eq_none_iff_forall_not_mem.2 fun _ hr => hid (hv.region hr)⟩

theorem isBare_next (hv : s.view.Sound) : s.IsBare s.nextSpace := isBare_of_not_live hv hv.not_live_next

theorem isBare_of_freed {v : View} (hfreed : v.Freed (·.space = id) t.view)
    (hregions : ∀ va, v.regions ⟨id, va⟩ = none) : t.IsBare id := fun va =>
  ⟨(hfreed.gone rfl).1, (congrFun hfreed.regions _).trans (hregions va)⟩

/-- Nothing is left of an address space that is dropped. -/
theorem isBare_of_drop (hs : s.WellFormed) (hv : s.view.Sound) (hc : (Call.drop id).Admissible s) :
    ((Call.drop id).outcome s).2.IsBare id := by
  have hperforms : Paging.Performs (Call.drop id).run s fun _ _ t => View.Freed (·.space = id)
      { s.view.withoutRegions id with live := fun id' => id' ≠ id ∧ s.view.live id' } t.view :=
    (Paging.performs_drop hs hv (hc.space _ rfl)).bind_pure (fun _ _ _ hr => hr.2.2) fun _ _ _ hr => hr.2.2
  obtain ⟨_, _, _, hfreed⟩ := hperforms.outcome
  exact isBare_of_freed hfreed fun _ => if_pos rfl

theorem isBare_of_teardown (hs : s.WellFormed) (hv : s.view.Sound) (hc : (Call.teardown id).Admissible s) :
    ((Call.teardown id).outcome s).2.IsBare id := by
  have hperforms : Paging.Performs (Call.teardown id).run s fun _ _ t =>
      (s.view.withoutRegions id).Freed (·.space = id) t.view :=
    (Paging.performs_teardown hs hv (hc.space _ rfl)).bind_pure (fun _ _ _ hr => hr.2.2) fun _ _ _ hr => hr.2.2
  obtain ⟨_, _, _, hfreed⟩ := hperforms.outcome
  exact isBare_of_freed hfreed fun _ => if_pos rfl

theorem Initial.isBare (h : s.Initial) (id : SpaceId) : s.IsBare id := by
  refine isBare_of_not_live h.sound fun hlive => ?_
  have hmem : id ∈ s.spaces := hlive
  rw [h.spaces] at hmem
  exact Std.ExtTreeMap.not_mem_empty hmem

/-- Where there was nothing, everything is respected. -/
theorem Respects.of_isBare (h : s.IsBare id) (t : System) : s.Respects id t where
  page _ _ hr := by rw [(h _).2] at hr; cases hr
  over_page _ _ hsome := by rw [(h _).1] at hsome; cases hsome
  over_region _ _ hr := by rw [(h _).2] at hr; cases hr

/-- Where regions stay as they are and no page appears, everything is respected. -/
theorem Respects.of_removal (hregions : ∀ va, t.region? ⟨id, va⟩ = s.region? ⟨id, va⟩)
    (hpages : ∀ va, s.page? ⟨id, va⟩ = none → t.page? ⟨id, va⟩ = none) : s.Respects id t where
  page hnone hsome := by rw [hpages _ hnone] at hsome; cases hsome
  over_page hr hnot := absurd ((hregions _).symm.trans hr) hnot
  over_region hr hnot := absurd ((hregions _).symm.trans hr) hnot

end System

/-- By the call, `src` is copied into `id`. -/
def Call.CopiesInto (s : System) (src id : SpaceId) : Call → Prop
  | fork src' _ => src' = src ∧ s.nextSpace = id
  | duplicate dst src' => src' = src ∧ dst = id
  | _ => False

/-- What is remembered of a run. -/
structure Ledger where
  /-- The mapping that made the page at a place, if it was made by a mapping. -/
  maker : PageId → Option Mapping := fun _ => none
  orderly : SpaceId → Prop := fun _ => True
  intact : SpaceId → Prop := fun _ => True

namespace Ledger

/-- The mapping by which a call, which succeeded if `ok`, made a page at `p`. A copying that fails leaves copies. -/
def made (L : Ledger) (s : System) (ok : Bool) (p : PageId) : Call → Option Mapping
  | .mmap id start length writable file offset =>
    if ok then some (.ofRequest id start length writable file offset (s.file file).size) else none
  | .fork id _ => (L.maker ⟨id, p.va⟩).map (·.into p.space)
  | .duplicate _ src => (L.maker ⟨src, p.va⟩).map (·.into p.space)
  | _ => none

/-- The address space `id` is orderly after a call that took `s` to `t`. -/
def keepsOrderly (L : Ledger) (s : System) (c : Call) (t : System) (id : SpaceId) : Prop :=
  t.IsBare id ∨ L.orderly id ∧ (∀ src, c.CopiesInto s src id → L.orderly src) ∧ s.Respects id t

/-- The address space `id` is intact after a call, which succeeded if `ok`. -/
def keepsIntact (L : Ledger) (s : System) (ok : Bool) (id : SpaceId) : Call → Prop
  | .drop id' | .teardown id' => id = id' ∨ L.intact id
  | .removePage id' va => L.intact id ∧
      (id = id' → ∀ a r, s.region? ⟨id', a⟩ = some r → ¬ r.Contains va.pageDown)
  | .fork src _ => (id = s.nextSpace → L.intact src) ∧ (id ≠ s.nextSpace → L.intact id)
  | .duplicate dst src => L.intact id ∧ (id = dst → ok = true ∧ L.intact src)
  | _ => L.intact id

/-- The ledger after a call that ended with `r` and took `s` to `t`. -/
def after (L : Ledger) (s : System) (c : Call) (r : Except Failure Answer) (t : System) : Ledger where
  maker p :=
    if t.page? p = none then none
    else if (s.page? p).isSome then L.maker p
    else L.made s r.toBool p c
  orderly id := L.keepsOrderly s c t id
  intact id := L.keepsIntact s r.toBool id c

/-- The ledger after some calls. -/
def along (L : Ledger) (s : System) : List Call → Ledger
  | [] => L
  | c :: cs => (L.after s c (c.outcome s).1 (c.outcome s).2).along (c.outcome s).2 cs

/-- The ledger is that of a run that leads to the system. -/
inductive Kept : System → Ledger → Prop
  | initial {s : System} (h : s.Initial) : Kept s {}
  | call {s : System} {L : Ledger} (h : Kept s L) {c : Call} (hc : c.Admissible s) :
    Kept (c.outcome s).2 (L.after s c (c.outcome s).1 (c.outcome s).2)
  | device {s t : System} {L : Ledger} (h : Kept s L) (ht : s.Device t) : Kept t L

variable {L : Ledger} {s t : System} {c : Call} {r : Except Failure Answer} {p : PageId} {m : Mapping}

theorem Kept.reachable (h : Kept s L) : s.Reachable := by
  induction h with
  | initial h => exact .initial h
  | call _ hc ih => exact ih.call hc
  | device _ ht ih => exact ih.device ht

theorem Kept.along (h : Kept s L) {cs : List Call} (hcs : s.Admits cs) : Kept (s.after cs) (L.along s cs) := by
  induction cs generalizing s L with
  | nil => exact h
  | cons c cs ih => exact ih (h.call hcs.1) hcs.2

/-- Every run has its ledger. -/
theorem exists_kept (h : s.Reachable) : ∃ L, Kept s L := by
  induction h with
  | initial h => exact ⟨_, .initial h⟩
  | call _ hc ih =>
    obtain ⟨L, hL⟩ := ih
    exact ⟨_, hL.call hc⟩
  | device _ ht ih =>
    obtain ⟨L, hL⟩ := ih
    exact ⟨L, hL.device ht⟩

theorem maker_after_of_isSome (hs : (s.page? p).isSome) (ht : (t.page? p).isSome) :
    (L.after s c r t).maker p = L.maker p := by
  simp [after, hs, Option.isSome_iff_ne_none.1 ht]

theorem maker_after_of_eq_none (hs : s.page? p = none) (ht : (t.page? p).isSome) :
    (L.after s c r t).maker p = L.made s r.toBool p c := by
  simp [after, hs, Option.isSome_iff_ne_none.1 ht]

/-- A page that was made by a mapping was made before, or appears by the call. -/
theorem of_maker_after (h : (L.after s c r t).maker p = some m) : (t.page? p).isSome ∧
    ((s.page? p).isSome ∧ L.maker p = some m ∨ s.page? p = none ∧ L.made s r.toBool p c = some m) := by
  unfold after at h
  dsimp only at h
  split at h
  · cases h
  next ht =>
    refine ⟨Option.isSome_iff_ne_none.2 ht, ?_⟩
    split at h
    next hs => exact .inl ⟨hs, h⟩
    next hs => exact .inr ⟨Option.not_isSome_iff_eq_none.1 hs, h⟩

/-- Each space that is intact is laid out, and pages that were made by mappings are there. -/
structure Agrees (L : Ledger) (s : System) : Prop where
  present : ∀ {p m}, L.maker p = some m → (s.page? p).isSome
  laidOut : ∀ {id}, L.intact id → LaidOut L.maker id s.view

end Ledger

namespace LaidOut

open Ledger

variable {L : Ledger} {s t : System} {c : Call} {r : Except Failure Answer} {ds : List Deed} {id : SpaceId}
  {m : Mapping}

/-- Where the pages of mappings stay and no pages are made by mappings, a call leaves the layout as it is. -/
theorem after_of_keep (h : LaidOut L.maker id s.view)
    (hregions : ∀ {p}, p.space = id → t.view.regions p = s.view.regions p)
    (hpages : ∀ {p m}, p.space = id → L.maker p = some m → (s.page? p).isSome → (t.page? p).isSome)
    (hnew : ∀ {p m}, p.space = id → s.page? p = none → (t.page? p).isSome →
      L.made s r.toBool p c = some m → False) :
    LaidOut (L.after s c r t).maker id t.view := by
  refine h.keep hregions (fun {p m} hp hm hsome => ?_) fun {p m} hp hm => ?_
  · have ht := hpages hp hm hsome
    exact ⟨ht, (maker_after_of_isSome hsome ht).trans hm⟩
  · obtain ⟨ht, ⟨_, hm⟩ | ⟨hs, hm⟩⟩ := of_maker_after hm
    · exact hm
    · exact (hnew hp hs ht hm).elim

/-- A call leaves other address spaces as they are. -/
theorem after_of_ne (h : LaidOut L.maker id s.view) (htrace : Trace s.view ds t.view) (hexplains : c.Explains s r ds t)
    (hid : c.target? s ≠ some id) : LaidOut (L.after s c r t).maker id t.view := by
  have hspares {p : PageId} (hp : p.space = id) (d : Deed) (hd : d ∈ ds) : d.SparesRegion p ∧ ¬ d.IsAbout p :=
    (hexplains.allowed d hd).spares_of_ne (hp ▸ hid)
  have hpages {p : PageId} (hp : p.space = id) : (t.page? p).isSome = (s.page? p).isSome := by
    have hnature := congrArg Option.isSome (htrace.natureOf_eq fun d hd => (hspares hp d hd).2)
    rwa [View.isSome_natureOf, View.isSome_natureOf] at hnature
  refine h.after_of_keep (fun hp => htrace.region_eq_of_spares fun d hd => (hspares hp d hd).1)
    (fun hp _ hsome => (hpages hp).trans hsome) fun {p m} hp hs ht _ => ?_
  rw [hpages hp, hs] at ht
  cases ht

/-- A call that records no region and removes no page that was there leaves the layout as it is. -/
theorem after_of_spares (h : LaidOut L.maker id s.view) (htrace : Trace s.view ds t.view)
    (hexplains : c.Explains s r ds t)
    (hc : c.SparesRegions) (hremoves : ¬ c.Removes) : LaidOut (L.after s c r t).maker id t.view := by
  have hundoes : UndoesOnly ds := hexplains.undoes.resolve_left hremoves
  refine h.after_of_keep (fun {p} _ => htrace.region_eq_of_spares fun d hd =>
    (hexplains.allowed d hd).sparesRegion hc p)
    (fun _ _ hsome => (htrace.isSome_pages (htrace.remove_notMem hundoes not_false hsome) hsome).1)
    fun {p m} _ _ _ hm => ?_
  cases c with
  | mmap => exact hc
  | fork => exact hc
  | duplicate => exact hc
  | _ => cases hm

/-- A page that is in no region may be removed. -/
theorem after_removePage (h : LaidOut L.maker id s.view) {va : VirtAddr} (htrace : Trace s.view ds t.view)
    (hexplains : (Call.removePage id va).Explains s r ds t)
    (hva : ∀ a r, s.region? ⟨id, a⟩ = some r → ¬ r.Contains va.pageDown) :
    LaidOut (L.after s (.removePage id va) r t).maker id t.view := by
  have hallowed (d : Deed) (hd : d ∈ ds) : d = .remove ⟨id, va.pageDown⟩ := hexplains.allowed d hd
  refine h.after_of_keep (fun {p} _ => htrace.region_eq_of_spares fun d hd => hallowed d hd ▸ fun _ => rfl)
    (fun {p m} hp hm hsome => ?_) fun _ _ _ hm => by cases hm
  obtain ⟨hplace, hregion⟩ := h.page hp hm
  have hspace : m.space = id := hplace.space_eq.symm.trans hp
  have hne : p ≠ ⟨id, va.pageDown⟩ := by
    rintro rfl
    exact hva m.start m.region (hspace ▸ hregion) (Mapping.contains_of_isPlace hplace)
  exact (htrace.isSome_pages (fun hmem => hne (Deed.remove.inj (hallowed _ hmem))) hsome).1

/-- An address space without pages and regions is laid out. -/
theorem of_isBare {maker : PageId → Option Mapping} (h : s.IsBare id)
    (hpresent : ∀ {p m}, maker p = some m → (s.page? p).isSome) : LaidOut maker id s.view where
  region {p r} hp hr := by
    subst hp
    rw [show s.view.regions p = none from (h p.va).2] at hr
    cases hr
  page {p m} hp hm := by
    subst hp
    have hsome := hpresent hm
    rw [show s.page? p = none from (h p.va).1] at hsome
    cases hsome

/-- A mapping that is made is recorded with all its pages. -/
theorem after_mapping (h : LaidOut L.maker m.space s.view) (htrace : Trace s.view m.deeds t.view) {size : Nat}
    (hfits : m.Fits size) (hfree : ∀ i < m.count, s.view.pages (m.place i) = none) {a : Answer}
    (hmade : ∀ p, L.made s true p c = some m) : LaidOut (L.after s c (.ok a) t).maker m.space t.view := by
  have hkept {p : PageId} (hsome : (s.page? p).isSome) : (t.page? p).isSome := by
    refine (htrace.isSome_pages (fun hmem => ?_) hsome).1
    obtain ⟨i, _, hi⟩ | hi := Mapping.mem_deeds.1 hmem <;> cases hi
  have hregions : t.view.regions = Function.update s.view.regions m.origin (some m.region) := htrace.regions_of_mapping
  -- No region was recorded where the first page is, for it would have had its first page there.
  have horigin : s.view.regions m.origin = none := by
    refine Option.eq_none_iff_forall_not_mem.2 fun r hr => ?_
    obtain ⟨m', size, hfits', horigin, _, hplaces⟩ := h.region rfl hr
    have hsome := (hplaces _ (Mapping.isPlace_origin hfits')).1
    rw [horigin, ← m.place_zero, hfree 0 (Nat.pos_of_ne_zero hfits.count_ne)] at hsome
    cases hsome
  refine ⟨fun {p r} hp hr => ?_, fun {p m'} hp hm' => ?_⟩
  · rw [hregions, Function.update_apply] at hr
    split at hr
    next horigin' =>
      obtain rfl := Option.some.inj hr
      refine ⟨m, _, hfits, horigin'.symm, rfl, fun q hq => ?_⟩
      have hsome := htrace.isSome_of_mapping hq
      obtain ⟨i, hi, rfl⟩ := hq
      exact ⟨hsome, (maker_after_of_eq_none (hfree i hi) hsome).trans (hmade _)⟩
    next =>
      obtain ⟨m', size, hfits', rfl, hregion, hplaces⟩ := h.region hp hr
      refine ⟨m', size, hfits', rfl, hregion, fun q hq => ?_⟩
      obtain ⟨hsome, hmaker⟩ := hplaces q hq
      exact ⟨hkept hsome, (maker_after_of_isSome hsome (hkept hsome)).trans hmaker⟩
  · obtain ⟨hsome, ⟨_, hmaker⟩ | ⟨hnone, hmade'⟩⟩ := of_maker_after hm'
    · obtain ⟨hplace, hregion⟩ := h.page hp hmaker
      refine ⟨hplace, ?_⟩
      rw [hregions, Function.update_of_ne fun e => ?_]
      · exact hregion
      · rw [e, horigin] at hregion
        cases hregion
    · obtain rfl : m = m' := Option.some.inj ((hmade p).symm.trans hmade')
      exact ⟨htrace.isPlace_of_mapping hnone hsome, by rw [hregions, Function.update_self]⟩

theorem performs_run_mmap (hs : s.WellFormed) (hv : s.view.Sound) {id : SpaceId} (hlive : s.view.live id)
    {start : VirtAddr} {length : Nat} {writable : Bool} {file : FileId} {offset : Nat} {m : Mapping}
    (hm : m = .ofRequest id start length writable file offset (s.file file).size) :
    Paging.Performs (Call.mmap id start length writable file offset).run s fun r ds _ =>
      match r with
      | .ok _ => m.Fits (s.file file).size ∧ (∀ i < m.count, s.view.pages (m.place i) = none) ∧ ds = m.deeds
      | .error _ => ∃ k, ds = (List.range k).map m.describe :=
  (Paging.performs_mmap hs hv hlive start length writable file offset hm).bind_pure (fun _ _ _ hr => hr.2)
    fun _ _ _ hr => hr

/-- A mapping that fails is not recorded. -/
theorem after_mmap (hs : s.WellFormed) (hv : s.view.Sound) {start : VirtAddr} {length : Nat} {writable : Bool}
    {file : FileId} {offset : Nat} (hc : c = .mmap id start length writable file offset) (hadmissible : c.Admissible s)
    (h : LaidOut L.maker id s.view) :
    LaidOut (L.after s c (c.outcome s).1 (c.outcome s).2).maker id (c.outcome s).2.view := by
  subst hc
  set m := Mapping.ofRequest id start length writable file offset (s.file file).size with hm
  obtain ⟨_, ds, htrace, hr⟩ := (performs_run_mmap hs hv (hadmissible.space _ rfl) hm).outcome
  generalize (Call.mmap id start length writable file offset).outcome s = o at htrace hr ⊢
  obtain ⟨r, t⟩ := o
  cases r with
  | ok a =>
    obtain ⟨hfits, hfree, rfl⟩ := hr
    exact after_mapping h htrace hfits hfree fun _ => rfl
  | error f =>
    obtain ⟨k, rfl⟩ := hr
    have hdescribe {d : Deed} (hd : d ∈ (List.range k).map m.describe) : ∃ i, m.describe i = d :=
      (List.mem_map.1 hd).imp fun _ hi => hi.2
    refine h.after_of_keep (fun {p} _ => htrace.region_eq_of_spares fun d hd => ?_)
      (fun _ _ hsome => (htrace.isSome_pages (fun hmem => ?_) hsome).1) fun _ _ _ hm => by cases hm
    · obtain ⟨i, rfl⟩ := hdescribe hd
      exact fun _ => rfl
    · obtain ⟨i, hi⟩ := hdescribe hmem
      cases hi

/-- With a mapping, all its pages go, and no others. -/
theorem after_unmapping (h : LaidOut L.maker id s.view) (hregion : s.view.regions m.origin = some m.region)
    (hplaces : ∀ q, m.IsPlace q → L.maker q = some m)
    (hfreed : (s.view.setRegion m.origin none).Freed m.IsPlace t.view)
    (hmade : ∀ p, L.made s r.toBool p c = none) :
    LaidOut (L.after s c r t).maker id t.view := by
  have hregions (p : PageId) : t.view.regions p = if p = m.origin then none else s.view.regions p := by
    rw [hfreed.regions, View.setRegion_regions, Function.update_apply]
  have hkept {q : PageId} (hq : ¬ m.IsPlace q) : t.page? q = s.page? q := (hfreed.kept hq).1
  refine ⟨fun {p r'} hp hr' => ?_, fun {p m'} hp hm' => ?_⟩
  · rw [hregions] at hr'
    split at hr'
    · cases hr'
    next hne =>
      obtain ⟨m', size, hfits', rfl, rfl, hplaces'⟩ := h.region hp hr'
      refine ⟨m', size, hfits', rfl, rfl, fun q hq => ?_⟩
      obtain ⟨hsome, hmaker⟩ := hplaces' q hq
      have hother : ¬ m.IsPlace q := fun hplace => hne (by rw [Option.some.inj ((hplaces q hplace).symm.trans hmaker)])
      have ht : (t.page? q).isSome := by rw [hkept hother]; exact hsome
      exact ⟨ht, (maker_after_of_isSome hsome ht).trans hmaker⟩
  · obtain ⟨hsome, ⟨_, hmaker⟩ | ⟨_, hmade'⟩⟩ := of_maker_after hm'
    · obtain ⟨hplace, hregion'⟩ := h.page hp hmaker
      refine ⟨hplace, ?_⟩
      rw [hregions, if_neg fun horigin => ?_]
      · exact hregion'
      · rw [horigin, hregion, Option.some.injEq] at hregion'
        have hgone : t.page? p = none := (hfreed.gone (hplace.of_region_eq horigin.symm hregion')).1
        rw [hgone] at hsome
        cases hsome
    · rw [hmade] at hmade'
      cases hmade'

theorem after_munmap (hs : s.WellFormed) (hv : s.view.Sound) {va : VirtAddr} (hc : c = .munmap id va)
    (h : LaidOut L.maker id s.view) :
    LaidOut (L.after s c (c.outcome s).1 (c.outcome s).2).maker id (c.outcome s).2.view := by
  subst hc
  have hmunmap := Paging.performs_munmap hs hv id va
  cases hr : s.view.regions ⟨id, va⟩ with
  | none =>
    simp only [hr] at hmunmap
    have hperforms : Paging.Performs (Call.munmap id va).run s fun _ ds _ => ds = [] :=
      hmunmap.bind_pure (fun _ _ _ hr => hr.1) fun _ _ _ hr => hr.1
    obtain ⟨_, ds, htrace, rfl⟩ := hperforms.outcome
    refine h.after_of_keep (fun _ => htrace.region_eq_of_spares (by simp))
      (fun _ _ hsome => (htrace.isSome_pages List.not_mem_nil hsome).1) fun _ _ _ hm => by cases hm
  | some region =>
    simp only [hr] at hmunmap
    have hperforms : Paging.Performs (Call.munmap id va).run s fun _ _ t =>
        (s.view.setRegion ⟨id, va⟩ none).Freed (fun p => ∃ a ∈ region.addrs, p = ⟨id, a.pageDown⟩) t.view :=
      hmunmap.bind_pure (fun _ _ _ hr => hr.2.1) fun _ _ _ hr => hr.2.1
    obtain ⟨_, ds, _, hfreed⟩ := hperforms.outcome
    obtain ⟨m, size, hfits, rfl, horigin, rfl, hplaces⟩ := h.exists_mapping rfl hr
    rw [← horigin] at hfreed hr
    refine h.after_unmapping hr hplaces ?_ fun _ => rfl
    exact hfreed.congr fun p => (Mapping.isPlace_iff hfits.start_aligned).symm

/-- What is copied is laid out as it was, beside what was there before. -/
theorem after_copy {src dst : SpaceId} (hdst : LaidOut L.maker dst s.view) (hsrc : LaidOut L.maker src s.view)
    (h : s.Duplicates dst src t) {a : Answer}
    (hmade : ∀ va, L.made s true ⟨dst, va⟩ c = (L.maker ⟨src, va⟩).map (·.into dst))
    (hkept : ∀ {p}, p.space = dst → (s.page? p).isSome → (t.page? p).isSome)
    (hpresent : ∀ {p m}, L.maker p = some m → (s.page? p).isSome) :
    LaidOut (L.after s c (.ok a) t).maker dst t.view := by
  have hregions (p : PageId) (r : Region) : t.view.regions p = some r ↔
      s.view.regions p = some r ∨ p = ⟨dst, r.start⟩ ∧ ∃ va, s.view.regions ⟨src, va⟩ = some r := h.regions p r
  refine ⟨fun {p r} hp hr => ?_, fun {p m} hp hm => ?_⟩
  · obtain hr | ⟨rfl, va, hr⟩ := (hregions p r).1 hr
    · obtain ⟨m, size, hfits, rfl, hregion, hplaces⟩ := hdst.region hp hr
      refine ⟨m, size, hfits, rfl, hregion, fun q hq => ?_⟩
      obtain ⟨hsome, hmaker⟩ := hplaces q hq
      have ht := hkept (hq.space_eq.trans hp) hsome
      exact ⟨ht, (maker_after_of_isSome hsome ht).trans hmaker⟩
    · obtain ⟨m, size, hfits, hspace, horigin, rfl, hplaces⟩ := hsrc.exists_mapping rfl hr
      refine ⟨m.into dst, size, hfits.into dst, rfl, rfl, fun q hq => ?_⟩
      obtain ⟨i, hi, rfl⟩ := hq
      have hmaker : L.maker ⟨src, m.addr i⟩ = some m := by
        rw [← hspace]
        exact hplaces _ ⟨i, hi, rfl⟩
      have hsome := hpresent hmaker
      have hfree : s.page? ⟨dst, m.addr i⟩ = none := Option.map_eq_none_iff.1 (h.pages.free hsome)
      have ht : (t.page? ⟨dst, m.addr i⟩).isSome := by
        have hnature := congrArg Option.isSome (h.pages.nature hsome)
        rw [Option.isSome_map, View.isSome_natureOf, View.isSome_natureOf] at hnature
        exact hnature.trans hsome
      refine ⟨ht, (maker_after_of_eq_none hfree ht).trans ((hmade _).trans ?_)⟩
      rw [hmaker, Option.map_some]
  · obtain ⟨space, va⟩ := p
    obtain rfl : space = dst := hp
    obtain ⟨_, ⟨_, hmaker⟩ | ⟨_, hmaker⟩⟩ := of_maker_after hm
    · obtain ⟨hplace, hregion⟩ := hdst.page rfl hmaker
      exact ⟨hplace, (hregions _ _).2 (.inl hregion)⟩
    · obtain ⟨m, hmaker', rfl⟩ := Option.map_eq_some_iff.1 ((hmade _).symm.trans hmaker)
      obtain ⟨hplace, hregion⟩ := hsrc.page rfl hmaker'
      have hspace : m.space = src := hplace.space_eq.symm
      obtain ⟨i, hi, hp⟩ := hplace
      refine ⟨⟨i, hi, ?_⟩, (hregions _ _).2 (.inr ⟨rfl, m.start, ?_⟩)⟩
      · rw [show va = m.addr i from congrArg PageId.va hp]
        rfl
      · rw [← hspace]
        exact hregion

theorem after_duplicate (hs : s.WellFormed) (hv : s.view.Sound) {dst src : SpaceId}
    (hc : (Call.duplicate dst src).Admissible s) (h : L.Agrees s) (hdst : L.intact dst) (hsrc : L.intact src)
    (hok : ((Call.duplicate dst src).outcome s).1.toBool = true) :
    LaidOut (L.after s (.duplicate dst src) ((Call.duplicate dst src).outcome s).1
      ((Call.duplicate dst src).outcome s).2).maker dst ((Call.duplicate dst src).outcome s).2.view := by
  have hperforms : Paging.Performs (Call.duplicate dst src).run s fun r ds t =>
      (∀ d ∈ ds, d.IsOfCopy dst src) ∧ (r.toBool = true → s.Duplicates dst src t) :=
    (Paging.performs_duplicate hs hv (hc.space _ rfl) fun e => (hc.source _ rfl).2 (e ▸ rfl)).bind_pure
      (fun _ _ _ hr => ⟨hr.1, fun _ => hr.2 _ rfl⟩) fun _ _ _ hr => ⟨hr.1, fun h => by cases h⟩
  obtain ⟨_, ds, htrace, hds, hduplicates⟩ := hperforms.outcome
  have hcopied := hduplicates hok
  generalize (Call.duplicate dst src).outcome s = o at htrace hok hcopied
  obtain ⟨r | a, t⟩ := o
  · cases hok
  refine after_copy (h.laidOut hdst) (h.laidOut hsrc) hcopied (fun _ => rfl) (fun {p} _ hsome => ?_) h.present
  refine (htrace.isSome_pages (fun hmem => ?_) hsome).1
  obtain ⟨va, r, hd⟩ | ⟨va, page, hd⟩ := hds _ hmem <;> cases hd

theorem performs_run_fork (hs : s.WellFormed) (hv : s.view.Sound) {src : SpaceId} (hlive : s.view.live src)
    {table : PageTable} (htable : table.Willing) (hentries : table.entries = ∅) :
    Paging.Performs (Call.fork src table).run s fun r _ t =>
      match r with
      | .ok _ => s.Duplicates s.nextSpace src t
      | .error _ => t.view.live = s.view.live := by
  refine (Paging.performs_fork hs hv hlive htable hentries).bind_pure (fun child _ _ hr => ?_) fun _ _ _ hr => hr.2.1
  obtain ⟨_, rfl, hduplicates⟩ := hr
  exact hduplicates

theorem after_fork (hs : s.WellFormed) (hv : s.view.Sound) {src : SpaceId} {table : PageTable}
    (hc : (Call.fork src table).Admissible s) (h : L.Agrees s) (hsrc : L.intact src) :
    LaidOut (L.after s (.fork src table) ((Call.fork src table).outcome s).1
      ((Call.fork src table).outcome s).2).maker s.nextSpace ((Call.fork src table).outcome s).2.view := by
  obtain ⟨htable, hentries⟩ := hc.table _ rfl
  obtain ⟨ht, ds, htrace, hr⟩ := (performs_run_fork hs hv (hc.space _ rfl) htable hentries).outcome
  have hv' := htrace.sound hv
  have hfresh : ¬ s.view.live s.nextSpace := hv.not_live_next
  generalize (Call.fork src table).outcome s = o at hv' hr
  obtain ⟨f | a, t⟩ := o
  · exact of_isBare (System.isBare_of_not_live hv' (hr ▸ hfresh)) fun hm => (of_maker_after hm).1
  · refine after_copy (of_isBare (System.isBare_of_not_live hv hfresh) h.present) (h.laidOut hsrc) hr (fun _ => rfl)
      (fun {p} hp hsome => ?_) h.present
    obtain ⟨page, hpage⟩ := Option.isSome_iff_exists.1 hsome
    exact absurd (hv.page hpage).1 (hp ▸ hfresh)

end LaidOut

namespace Ledger

variable {L : Ledger} {s t : System} {c : Call} {id : SpaceId}

theorem intact_of_ne {ok : Bool} (h : L.keepsIntact s ok id c) (hid : c.target? s ≠ some id) : L.intact id := by
  cases c with
  | drop id' => exact h.resolve_left fun e => hid (e ▸ rfl)
  | teardown id' => exact h.resolve_left fun e => hid (e ▸ rfl)
  | fork src table => exact h.2 fun e => hid (e ▸ rfl)
  | duplicate dst src => exact h.1
  | removePage id' va => exact h.1
  | _ => exact h

/-- Whatever is called, the address spaces that are intact afterwards are laid out. -/
theorem Agrees.call (h : L.Agrees s) (hs : s.WellFormed) (hv : s.view.Sound) (hc : c.Admissible s) :
    (L.after s c (c.outcome s).1 (c.outcome s).2).Agrees (c.outcome s).2 := by
  refine ⟨fun hm => (of_maker_after hm).1, fun {id} hid => ?_⟩
  obtain ⟨_, ds, htrace, hexplains⟩ := System.exists_explains hs hv hc
  by_cases htarget : c.target? s = some id
  swap
  · exact (h.laidOut (intact_of_ne hid htarget)).after_of_ne htrace hexplains htarget
  cases c <;> try obtain rfl := Option.some.inj htarget
  case create => cases htarget
  case lend => cases htarget
  case giveBack => cases htarget
  case drop => exact .of_isBare (System.isBare_of_drop hs hv hc) fun hm => (of_maker_after hm).1
  case teardown => exact .of_isBare (System.isBare_of_teardown hs hv hc) fun hm => (of_maker_after hm).1
  case fork => exact .after_fork hs hv hc h (hid.1 rfl)
  case duplicate => exact .after_duplicate hs hv hc h hid.1 (hid.2 rfl).2 (hid.2 rfl).1
  case removePage => exact (h.laidOut hid.1).after_removePage htrace hexplains (hid.2 rfl)
  case mmap => exact (h.laidOut hid).after_mmap hs hv rfl hc
  case munmap => exact (h.laidOut hid).after_munmap hs hv rfl
  all_goals exact (h.laidOut hid).after_of_spares htrace hexplains trivial not_false

theorem Kept.agrees (h : Kept s L) : L.Agrees s := by
  induction h with
  | initial h =>
    exact ⟨fun hm => (by cases hm), fun {id} _ => .of_isBare (h.isBare id) fun hm => by cases hm⟩
  | call h hc ih => exact ih.call h.reachable.wellFormed h.reachable.sound hc
  | device h ht ih =>
    obtain ⟨files, refuses, hview, _⟩ := ht.view_eq
    have hpages (p : PageId) : System.page? _ p = System.page? _ p := congrFun (congrArg View.pages hview) p
    refine ⟨fun hm => by rw [hpages]; exact ih.present hm, fun hid => ?_⟩
    rw [hview]
    exact (ih.laidOut hid).keep (fun _ => rfl) (fun _ hm hsome => ⟨hsome, hm⟩) fun _ hm => hm

end Ledger

end DemandPaging
