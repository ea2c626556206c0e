import DemandPaging.Proofs.FileImage

/-!
Runs in which a mapping is left alone. As long as nothing else maps its file and its pages are removed by nothing but
its end, a mapping behaves as the file does.
-/

namespace DemandPaging

variable {v w : View}

theorem View.Copies.fits {p src : PageId} {page : PageEntry} (h : v.Copies p src page w) : page.Fits p.va := by
  cases h with
  | resident _ _ _ _ hfits => exact hfits
  | swapped _ _ hfits => exact hfits
  | bare _ _ hfits => exact hfits

namespace Mapping

variable {m : Mapping} {data : Bytes} {copying : Option (SpaceId × SpaceId)}

/-- A page within the region of the mapping is one of its pages. -/
theorem isPlace_of_contains (hm : m.start.offset = 0) {va : VirtAddr} (h : m.region.Contains va) (hva : va.offset = 0) :
    m.IsPlace ⟨m.space, va⟩ := by
  obtain ⟨hlow, hhigh⟩ := h
  simp only [Region.limit, region] at hlow hhigh
  simp only [VirtAddr.offset] at hm hva
  have hmul : (va.toNat - m.start.toNat) / pageSize * pageSize = va.toNat - m.start.toNat :=
    Nat.div_mul_cancel (Nat.dvd_sub (Nat.dvd_of_mod_eq_zero hva) (Nat.dvd_of_mod_eq_zero hm))
  refine ⟨(va.toNat - m.start.toNat) / pageSize, ?_, ?_⟩
  · rw [Nat.div_lt_iff_lt_mul (by decide)]
    omega
  · have hsum : m.start.toNat + (va.toNat - m.start.toNat) / pageSize * pageSize = va.toNat := by omega
    rw [place, addr, hsum]

/-- The mapping is in place, and has the bytes `data`. -/
structure Stands (m : Mapping) (data : Bytes) (v : View) : Prop where
  shows : m.Shows data v
  present : ∀ i < m.count, (v.pages (m.place i)).isSome
  region : v.regions m.origin = some m.region

/-- Where pages are copied from `src` into `dst`, no region over the file is around any of them, but for that of the
mapping. -/
def AloneIn (m : Mapping) (copying : Option (SpaceId × SpaceId)) (v : View) : Prop :=
  ∀ dst src p r, copying = some (dst, src) → p.space = dst ∨ p.space = src → v.regions p = some r → r.file = m.file →
    p = m.origin ∨ ∀ va, r.Contains va → v.pages ⟨src, va⟩ = none

/-- The deed leaves the mapping in place. It copies nothing from the space of the mapping, and adds no pages to the
space that is copied. -/
def Permits (m : Mapping) (copying : Option (SpaceId × SpaceId)) : Deed → Prop
  | .describe p page => (∀ f, page.kind.window? = some f → f.file ≠ m.file) ∧ ∀ dst, copying ≠ some (dst, p.space)
  | .copy p src _ => src.space ≠ m.space ∧ copying = some (p.space, src.space) ∧ src.va = p.va ∧ p.space ≠ src.space
  | .inherit p src _ => src.space ≠ m.space ∧ copying = some (p.space, src.space) ∧ p.space ≠ src.space
  | .record p _ => p ≠ m.origin ∧ copying = none
  | .use p write _ bytes => m.IsPlace p → bytes = [] ∨ write = true
  | .remove p => ¬ m.IsPlace p
  | .forget p => p ≠ m.origin
  | .forgetAll id | .finish id => id ≠ m.space
  | _ => True

/-- A copy of a page that is not over the file is not over it either, where no region over the file is around it. -/
theorem Stands.isForeign_of_copies (hs : m.Stands data v) (hm : m.Fits data.length) (hX : m.AloneIn copying v)
    {p src : PageId} {page : PageEntry} (hplace : ¬ m.IsPlace p) (hfits : page.Fits p.va)
    (hmirrors : v.Mirrors p src page) (hd : m.Permits copying (.copy p src page)) : m.IsForeign p page := by
  obtain ⟨hsrc, hcopying, hva, _⟩ := hd
  obtain ⟨original, region, horiginal, hnature, hregion⟩ := hmirrors
  refine ⟨hplace, fun f hf hfile => ?_⟩
  rw [← PageKind.window?_nature] at hf
  obtain ⟨f', hf', rfl⟩ : ∃ f', original.kind.window? = some f' ∧ f'.inRegion region = f := by
    have hkind := congrArg PageEntry.kind hnature
    change page.kind.nature = original.kind.inRegion region at hkind
    rwa [hkind, PageKind.window?_inRegion, Option.map_eq_some_iff] at hf
  cases region with
  | none =>
    have hwindow : v.windowOf src = some f' := by rw [View.windowOf_eq_natureOf, horiginal]; exact hf'
    obtain ⟨i, _, rfl⟩ := hs.shows.alone hwindow hfile
    exact hsrc rfl
  | some r =>
    obtain ⟨hcontains, va, hr⟩ := hregion r rfl
    obtain horigin | hnone := hX _ _ ⟨p.space, va⟩ r hcopying (.inl rfl) hr hfile
    · rw [horigin, hs.region, Option.some.injEq] at hr
      subst hr
      have hspace : p.space = m.space := congrArg PageId.space horigin
      refine hplace ?_
      have hat := isPlace_of_contains hm.start_aligned hcontains hfits.aligned
      rwa [← hspace] at hat
    · have hmissing : v.pages src = none := by
        have hat := hnone _ hcontains
        rwa [← hva] at hat
      rw [View.natureOf, hmissing] at horiginal
      cases horiginal

end Mapping

open Mapping

variable {m : Mapping} {data : Bytes} {copying : Option (SpaceId × SpaceId)}

theorem Does.tolerates {d : Deed} (h : Does d v w) (hm : m.Fits data.length) (hs : m.Stands data v)
    (hX : m.AloneIn copying v)
    (hd : m.Permits copying d) : m.Tolerates d := by
  have hadds (i : Nat) (hi : i < m.count) : ¬ d.Adds (m.place i) := h.not_adds (hs.present i hi)
  cases h with
  | describe => exact .inr ⟨fun ⟨i, hi, hp⟩ => hadds i hi hp, hd.1⟩
  | copy h hmirrors => exact hs.isForeign_of_copies hm hX (fun ⟨i, hi, hp⟩ => hadds i hi hp) h.fits hmirrors hd
  | use => exact hd
  | _ => trivial

theorem Does.region_eq {d : Deed} (h : Does d v w) (hs : m.Stands data v) (hd : m.Permits copying d) :
    w.regions m.origin = some m.region := by
  rw [h.regions_eq]
  cases h with
  | record => exact (Function.update_of_ne (Ne.symm hd.1) ..).trans hs.region
  | inherit _ hfree _ =>
    refine (Function.update_of_ne (fun e => ?_) ..).trans hs.region
    rw [← e, hs.region] at hfree
    cases hfree
  | forget => exact (Function.update_of_ne (Ne.symm hd) ..).trans hs.region
  | forgetAll => exact (if_neg (Ne.symm hd)).trans hs.region
  | finish => exact (if_neg (Ne.symm hd)).trans hs.region
  | _ => exact hs.region

theorem Does.aloneIn {d : Deed} (h : Does d v w) (hX : m.AloneIn copying v) (hd : m.Permits copying d) :
    m.AloneIn copying w := by
  -- The space that is copied gets no pages, and the other one gets no regions but those of the first.
  have hadds {dst src : SpaceId} (hcopying : copying = some (dst, src)) (va : VirtAddr) : ¬ d.Adds ⟨src, va⟩ := by
    cases d with
    | describe p page => rintro rfl; exact hd.2 dst hcopying
    | copy p src' page =>
      rintro rfl
      obtain ⟨_, hcopying', _, hne⟩ := hd
      exact hne (Prod.mk.inj (Option.some.inj (hcopying.symm.trans hcopying'))).2
    | _ => exact not_false
  have hkeep {dst src : SpaceId} {p : PageId} {r : Region} (hcopying : copying = some (dst, src))
      (hold : p = m.origin ∨ ∀ va, r.Contains va → v.pages ⟨src, va⟩ = none) :
      p = m.origin ∨ ∀ va, r.Contains va → w.pages ⟨src, va⟩ = none :=
    hold.imp_right fun hnone va hva => h.pages_eq_none (hadds hcopying va) (hnone va hva)
  intro dst src p r hcopying hp hr hfile
  refine hkeep hcopying ?_
  rw [h.regions_eq] at hr
  have hupdate {q : PageId} {r' : Option Region} (hr : Function.update v.regions q r' p = some r)
      (hnew : p = q → r' = some r → p = m.origin ∨ ∀ va, r.Contains va → v.pages ⟨src, va⟩ = none) :
      p = m.origin ∨ ∀ va, r.Contains va → v.pages ⟨src, va⟩ = none := by
    by_cases hq : p = q
    · rw [hq, Function.update_self] at hr
      exact hnew hq hr
    · rw [Function.update_of_ne hq] at hr
      exact hX dst src p r hcopying hp hr hfile
  have hclear {id : SpaceId} (hr : (if p.space = id then none else v.regions p) = some r) :
      p = m.origin ∨ ∀ va, r.Contains va → v.pages ⟨src, va⟩ = none := by
    split at hr
    · cases hr
    · exact hX dst src p r hcopying hp hr hfile
  cases h with
  | record => rw [hd.2] at hcopying; cases hcopying
  | @inherit q src' r' _ _ _ hsrc =>
    refine hupdate hr fun hq he => ?_
    obtain rfl := Option.some.inj he
    obtain ⟨hspace, hcopying', _⟩ := hd
    obtain ⟨rfl, rfl⟩ := Prod.mk.inj (Option.some.inj (hcopying.symm.trans hcopying'))
    exact .inr ((hX _ _ src' r' hcopying (.inr rfl) hsrc hfile).resolve_left fun e => hspace (congrArg PageId.space e))
  | forget => exact hupdate hr fun _ he => by cases he
  | forgetAll => exact hclear hr
  | finish => exact hclear hr
  | _ => exact hX dst src p r hcopying hp hr hfile

/-- A deed that leaves the mapping in place changes what it has by what it stores. -/
theorem Does.stands {d : Deed} (h : Does d v w) (hv : v.Sound) (hm : m.Fits data.length) (hs : m.Stands data v)
    (hX : m.AloneIn copying v) (hd : m.Permits copying d) : m.Stands (m.image data d.store?.toList) w := by
  refine ⟨h.shows hv hm hs.shows (h.tolerates hm hs hX hd), fun i hi => ?_, h.region_eq hs hd⟩
  have hkept : .remove (m.place i) ∉ [d] := fun hmem => by
    rw [← List.mem_singleton.1 hmem] at hd
    exact hd ⟨i, hi, rfl⟩
  exact ((Trace.single h).isSome_pages hkept (hs.present i hi)).1

theorem Upkeep.stands (h : Upkeep v w) (hv : v.Sound) (hm : m.Fits data.length) (hs : m.Stands data v) :
    m.Stands data w where
  shows := h.shows hv hm hs.shows
  present i hi := by
    rw [h.isSome_pages_eq]
    exact hs.present i hi
  region := by rw [h.same.2.2.1, hs.region]

theorem Upkept.stands (h : Upkept v w) (hv : v.Sound) (hm : m.Fits data.length) (hs : m.Stands data v) :
    m.Stands data w := by
  induction h with
  | refl => exact hs
  | tail hpath hstep ih => exact hstep.stands (Upkept.sound hpath hv) hm ih

/-- A mapping that is left in place has what was stored last. -/
theorem Trace.stands {ds : List Deed} (h : Trace v ds w) (hv : v.Sound) (hm : m.Fits data.length)
    (hs : m.Stands data v) (hX : m.AloneIn copying v) (hds : ∀ d ∈ ds, m.Permits copying d) :
    m.Stands (m.image data (storesOf ds)) w := by
  induction h generalizing data with
  | done => simpa [storesOf] using hs
  | upkeep hstep _ ih =>
    refine ih (hstep.sound hv) hm (hstep.stands hv hm hs) (fun dst src p r hcopying hp hr hfile => ?_) hds
    rw [hstep.same.2.2.1] at hr
    refine (hX dst src p r hcopying hp hr hfile).imp_right fun hnone va hva => ?_
    exact Upkept.pages_eq_none (.single hstep) (hnone va hva)
  | @deed v w x d ds hdeed _ ih =>
    obtain ⟨hd, hrest⟩ := List.forall_mem_cons.1 hds
    have hstands := ih (hdeed.sound hv) (by rwa [length_image]) (hdeed.stands hv hm hs hX hd)
      (hdeed.aloneIn hX hd) hrest
    rwa [← image_append, ← storesOf_cons] at hstands

end DemandPaging
