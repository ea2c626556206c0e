import DemandPaging.Proofs.FileRun

/-!
Where mappings lie. As long as no page is removed from within a region and no copying stops half-way, each region of a
space is that of a mapping and has all its pages.
-/

namespace DemandPaging

/-- The deed is about the address space `id` at most. -/
def Deed.IsWithin (id : SpaceId) : Deed → Prop
  | load p _ | use p _ _ _ | describe p _ | copy p _ _ | remove p | record p _ | inherit p _ _ | forget p =>
      p.space = id
  | forgetAll id' | finish id' | create id' => id' = id
  | renumber | lend | takeBack => True

theorem Deed.IsWithin.spares {id : SpaceId} {d : Deed} (h : d.IsWithin id) {p : PageId} (hp : p.space ≠ id) :
    d.SparesRegion p ∧ ¬ d.IsAbout p := by
  have hne {q : PageId} (hq : q.space = id) : p ≠ q := by
    rintro rfl
    exact hp hq
  cases d with
  | load q _ => exact ⟨fun _ => rfl, Ne.symm (hne h)⟩
  | describe q _ => exact ⟨fun _ => rfl, Ne.symm (hne h)⟩
  | copy q _ _ => exact ⟨fun _ => rfl, Ne.symm (hne h)⟩
  | remove q => exact ⟨fun _ => rfl, Ne.symm (hne h)⟩
  | record q r => exact ⟨fun _ => Function.update_of_ne (hne h) .., not_false⟩
  | inherit q _ r => exact ⟨fun _ => Function.update_of_ne (hne h) .., not_false⟩
  | forget q => exact ⟨fun _ => Function.update_of_ne (hne h) .., not_false⟩
  | forgetAll id' => exact ⟨fun _ => if_neg fun e => hp (e.trans h), not_false⟩
  | finish id' => exact ⟨fun _ => if_neg fun e => hp (e.trans h), not_false⟩
  | _ => exact ⟨fun _ => rfl, not_false⟩

/-- A region that the deed records is recorded at its start. -/
def Deed.IsKeyed : Deed → Prop
  | record p r | inherit p _ r => r.start = p.va
  | _ => True

theorem Deed.IsKeyed.of_spares {d : Deed} (h : ∀ p, d.SparesRegion p) : d.IsKeyed := by
  have hupdate {p : PageId} {r : Region} (hp : Function.update (fun _ : PageId => none) p (some r) p = none) :
      r.start = p.va := by
    rw [Function.update_self] at hp
    cases hp
  cases d with
  | record p r => exact hupdate (h p fun _ => none)
  | inherit p src r => exact hupdate (h p fun _ => none)
  | _ => trivial

/-- Every region is recorded at its start. -/
def View.Keyed (v : View) : Prop := ∀ p r, v.regions p = some r → r.start = p.va

theorem Does.keyed {d : Deed} {v w : View} (h : Does d v w) (hd : d.IsKeyed) (hv : v.Keyed) : w.Keyed := by
  have hupdate {p : PageId} {region : Option Region} (hregion : ∀ r, region = some r → r.start = p.va) (q : PageId)
      (r : Region)
      (hr : Function.update v.regions p region q = some r) : r.start = q.va := by
    rw [Function.update_apply] at hr
    split at hr
    next hq => exact hq ▸ hregion r hr
    next => exact hv q r hr
  have hclear {id : SpaceId} (q : PageId) (r : Region) (hr : (if q.space = id then none else v.regions q) = some r) :
      r.start = q.va := by
    split at hr
    · cases hr
    · exact hv q r hr
  intro q r hr
  rw [h.regions_eq] at hr
  cases d with
  | record p r' => exact hupdate (fun r hr => Option.some.inj hr ▸ hd) q r hr
  | inherit p src r' => exact hupdate (fun r hr => Option.some.inj hr ▸ hd) q r hr
  | forget p => exact hupdate (fun r hr => by cases hr) q r hr
  | forgetAll id => exact hclear q r hr
  | finish id => exact hclear q r hr
  | _ => exact hv q r hr

theorem Trace.keyed {v w : View} {ds : List Deed} (h : Trace v ds w) (hds : ∀ d ∈ ds, d.IsKeyed) (hv : v.Keyed) :
    w.Keyed := by
  induction h with
  | done => exact hv
  | upkeep hstep _ ih => exact ih hds fun p r hr => hv p r (hstep.same.2.2.1 ▸ hr)
  | deed hdeed _ ih =>
    exact ih (fun d hd => hds d (List.mem_cons_of_mem _ hd)) (hdeed.keyed (hds _ (List.mem_cons_self ..)) hv)

namespace Call

/-- The call records and forgets no regions. -/
def SparesRegions : Call → Prop
  | drop _ | teardown _ | fork _ _ | duplicate _ _ | mmap _ _ _ _ _ _ | munmap _ _ => False
  | _ => True

variable {c : Call} {s : System} {d : Deed}

/-- Whatever a call does, it does in one address space. -/
theorem Allows.isWithin (h : c.Allows s d) {id : SpaceId} (hid : c.target? s = some id) : d.IsWithin id := by
  have hstack {p : PageId} (hp : p.space = id) (hd : d.IsOfStack p) : d.IsWithin id := by
    obtain rfl | ⟨fresh, rfl⟩ | rfl := hd <;> exact hp
  have haccess {id' : SpaceId} (hid' : id' = id) (hd : d.IsOfAccess id') : d.IsWithin id := by
    obtain ⟨va, hd⟩ | ⟨va, write, start, bytes, rfl, _⟩ := hd
    · exact hstack hid' hd
    · exact hid'
  have hclears {id' : SpaceId} (hid' : id' = id) (hd : d.Clears id') : d.IsWithin id := by
    obtain rfl | ⟨va, rfl⟩ := hd <;> exact hid'
  have hcopy {dst src : SpaceId} (hdst : dst = id) (hd : d.IsOfCopy dst src) : d.IsWithin id := by
    obtain ⟨va, r, rfl⟩ | ⟨va, page, rfl⟩ := hd <;> exact hdst
  have hid' := hid
  cases c <;> try obtain rfl := Option.some.inj hid
  case drop => exact h.elim (hclears rfl) fun h => h ▸ rfl
  case teardown => exact hclears rfl h
  case fork =>
    obtain rfl | hd | hd | rfl | rfl := h
    · rfl
    · exact hcopy rfl hd
    · exact hclears rfl hd
    · rfl
    · trivial
  case duplicate => exact hcopy rfl h
  case addPage => obtain ⟨q, _, rfl⟩ := h; rfl
  case removePage => obtain rfl : d = _ := h; rfl
  case claim => obtain ⟨fresh, rfl⟩ := h; rfl
  case mmap => obtain ⟨i, rfl⟩ | ⟨rfl, _⟩ := h <;> rfl
  case munmap => obtain rfl | ⟨r, _, a, _, rfl⟩ := h <;> rfl
  case mapSegment => obtain ⟨va, source, rfl, _⟩ | ⟨va, rfl⟩ := h <;> rfl
  case mapStack => exact hstack rfl h
  case touch => obtain ⟨fresh, rfl⟩ | ⟨start, bytes, rfl⟩ := h <;> rfl
  case create => cases hid'
  case lend => cases hid'
  case giveBack => cases hid'
  all_goals exact haccess rfl h

/-- A call leaves alone what is in other address spaces than its own. -/
theorem Allows.spares_of_ne (h : c.Allows s d) {p : PageId} (hp : c.target? s ≠ some p.space) :
    d.SparesRegion p ∧ ¬ d.IsAbout p := by
  cases htarget : c.target? s with
  | some id => exact (h.isWithin htarget).spares fun e => hp (e ▸ htarget)
  | none =>
    cases c with
    | create => obtain rfl : d = _ := h; exact ⟨fun _ => rfl, not_false⟩
    | lend => obtain rfl : d = _ := h; exact ⟨fun _ => rfl, not_false⟩
    | giveBack n => obtain rfl : d = _ := h; exact ⟨fun _ => rfl, not_false⟩
    | _ => cases htarget

theorem Allows.sparesRegion (h : c.Allows s d) (hc : c.SparesRegions) (p : PageId) : d.SparesRegion p := by
  have hstack {p' : PageId} (hd : d.IsOfStack p') : d.SparesRegion p := by
    obtain rfl | ⟨fresh, rfl⟩ | rfl := hd <;> exact fun _ => rfl
  have haccess {id : SpaceId} (hd : d.IsOfAccess id) : d.SparesRegion p := by
    obtain ⟨va, hd⟩ | ⟨va, write, start, bytes, rfl, _⟩ := hd
    · exact hstack hd
    · exact fun _ => rfl
  cases c with
  | create => obtain rfl : d = _ := h; exact fun _ => rfl
  | drop _ => exact hc.elim
  | teardown _ => exact hc.elim
  | fork _ _ => exact hc.elim
  | duplicate _ _ => exact hc.elim
  | mmap _ _ _ _ _ _ => exact hc.elim
  | munmap _ _ => exact hc.elim
  | addPage _ _ _ _ _ => obtain ⟨q, _, rfl⟩ := h; exact fun _ => rfl
  | removePage _ _ => obtain rfl : d = _ := h; exact fun _ => rfl
  | claim _ _ => obtain ⟨fresh, rfl⟩ := h; exact fun _ => rfl
  | mapSegment _ _ _ _ _ _ _ => obtain ⟨va, source, rfl, _⟩ | ⟨va, rfl⟩ := h <;> exact fun _ => rfl
  | mapStack _ => exact hstack h
  | touch _ _ _ _ => obtain ⟨fresh, rfl⟩ | ⟨start, bytes, rfl⟩ := h <;> exact fun _ => rfl
  | lend => obtain rfl : d = _ := h; exact fun _ => rfl
  | giveBack _ => obtain rfl : d = _ := h; exact fun _ => rfl
  | _ => exact haccess h

/-- A region that a call records is recorded at its start. -/
theorem Allows.isKeyed (h : c.Allows s d) : d.IsKeyed := by
  have hcopy {dst src : SpaceId} (hd : d.IsOfCopy dst src) : d.IsKeyed := by
    obtain ⟨va, r, rfl⟩ | ⟨va, page, rfl⟩ := hd
    · rfl
    · trivial
  have hclears {id : SpaceId} (hd : d.Clears id) : d.IsKeyed := by obtain rfl | ⟨va, rfl⟩ := hd <;> trivial
  cases c with
  | drop id => exact h.elim hclears fun h => h ▸ trivial
  | teardown id => exact hclears h
  | fork id table =>
    obtain rfl | hd | hd | rfl | rfl := h
    · trivial
    · exact hcopy hd
    · exact hclears hd
    · trivial
    · trivial
  | duplicate dst src => exact hcopy h
  | mmap id start length writable file offset =>
    obtain ⟨i, rfl⟩ | ⟨rfl, _⟩ := h
    · trivial
    · rfl
  | munmap id va => obtain rfl | ⟨r, _, a, _, rfl⟩ := h <;> trivial
  | _ => exact .of_spares (h.sparesRegion trivial)

end Call

namespace System

variable {s : System}

/-- In every state that a run leads to, each region is recorded at its start. -/
theorem Reachable.keyed (h : s.Reachable) : s.view.Keyed := by
  induction h with
  | initial h =>
    intro p r hr
    have hlive := h.sound.region hr
    change p.space ∈ _ at hlive
    rw [h.spaces] at hlive
    exact absurd hlive Std.ExtTreeMap.not_mem_empty
  | call h hc ih =>
    obtain ⟨_, ds, htrace, hexplains⟩ := exists_explains h.wellFormed h.sound hc
    exact htrace.keyed (fun d hd => (hexplains.allowed d hd).isKeyed) ih
  | device _ ht ih =>
    obtain ⟨files, refuses, hview, _⟩ := ht.view_eq
    rw [hview]
    exact ih

end System

namespace Mapping

/-- The same mapping in another address space. -/
def into (m : Mapping) (id : SpaceId) : Mapping := { m with space := id }

variable {m : Mapping} {p : PageId}

theorem Fits.into {size : Nat} (h : m.Fits size) (id : SpaceId) : (m.into id).Fits size :=
  ⟨h.start_ne, h.start_aligned, h.offset_aligned, h.covered_ne, h.covered_le, h.limit_le⟩

theorem contains_of_isPlace (h : m.IsPlace p) : m.region.Contains p.va := by
  obtain ⟨i, hi, rfl⟩ := h
  have hle : (i + 1) * pageSize ≤ m.count * pageSize := Nat.mul_le_mul_right _ hi
  rw [Nat.succ_mul] at hle
  simp only [Region.Contains, Region.limit, region, place, addr, pageSize] at hle ⊢
  omega

/-- The pages of a region, as they are unmapped, are those of its mapping. -/
theorem isPlace_iff (hm : m.start.offset = 0) : m.IsPlace p ↔ ∃ a ∈ m.region.addrs, p = ⟨m.space, a.pageDown⟩ := by
  have hplace (i : Nat) : m.place i = ⟨m.space, (m.addr i).pageDown⟩ := by
    rw [VirtAddr.pageDown_of_aligned (m.offset_addr hm i)]
    rfl
  constructor
  · rintro ⟨i, hi, rfl⟩
    exact ⟨_, addr_mem_addrs hi, hplace i⟩
  · rintro ⟨a, ha, rfl⟩
    obtain ⟨i, hi, rfl⟩ := List.mem_map.1 ha
    exact ⟨i, List.mem_range.1 hi, (hplace i).symm⟩

/-- A mapping has its pages where its region says. -/
theorem IsPlace.of_region_eq (h : m.IsPlace p) {m' : Mapping} (horigin : m'.origin = m.origin)
    (hregion : m'.region = m.region) : m'.IsPlace p := by
  have hcount : m'.count = m.count := congrArg Region.pageCount hregion
  obtain ⟨i, hi, rfl⟩ := h
  refine ⟨i, hcount ▸ hi, ?_⟩
  rw [place, place, addr, addr, show m'.space = m.space from congrArg PageId.space horigin,
    show m'.start = m.start from congrArg PageId.va horigin]

end Mapping

/-- Each region of the address space `id` is that of a mapping all pages of which are there, and pages that were made
by a mapping are within its region. -/
structure LaidOut (maker : PageId → Option Mapping) (id : SpaceId) (v : View) : Prop where
  region : ∀ {p r}, p.space = id → v.regions p = some r → ∃ m size, m.Fits size ∧ m.origin = p ∧ m.region = r ∧
    ∀ q, m.IsPlace q → (v.pages q).isSome ∧ maker q = some m
  page : ∀ {p m}, p.space = id → maker p = some m → m.IsPlace p ∧ v.regions m.origin = some m.region

namespace LaidOut

variable {maker maker' : PageId → Option Mapping} {id : SpaceId} {v w : View} {p q : PageId} {m : Mapping}
  {r : Region}

/-- The mapping whose region is recorded at a place. -/
theorem exists_mapping (h : LaidOut maker id v) (hp : p.space = id) (hr : v.regions p = some r) :
    ∃ m size, m.Fits size ∧ m.space = id ∧ m.origin = p ∧ m.region = r ∧ ∀ q, m.IsPlace q → maker q = some m := by
  obtain ⟨m, size, hfits, rfl, hregion, hplaces⟩ := h.region hp hr
  exact ⟨m, size, hfits, hp, rfl, hregion, fun q hq => (hplaces q hq).2⟩

/-- Where the pages of recorded mappings stay, and no others are said to be made by mappings, everything stays as it
is. -/
theorem keep (h : LaidOut maker id v) (hregions : ∀ {p}, p.space = id → w.regions p = v.regions p)
    (hpages : ∀ {p m}, p.space = id → maker p = some m → (v.pages p).isSome → (w.pages p).isSome ∧ maker' p = some m)
    (hmaker : ∀ {p m}, p.space = id → maker' p = some m → maker p = some m) : LaidOut maker' id w where
  region {p r} hp hr := by
    rw [hregions hp] at hr
    obtain ⟨m, size, hfits, rfl, hregion, hplaces⟩ := h.region hp hr
    refine ⟨m, size, hfits, rfl, hregion, fun q hq => ?_⟩
    exact hpages (hq.space_eq.trans hp) (hplaces q hq).2 (hplaces q hq).1
  page {p m} hp hm := by
    obtain ⟨hplace, hregion⟩ := h.page hp (hmaker hp hm)
    exact ⟨hplace, (hregions (hplace.space_eq.symm.trans hp)).trans hregion⟩

end LaidOut

end DemandPaging
