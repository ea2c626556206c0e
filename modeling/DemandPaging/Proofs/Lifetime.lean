import DemandPaging.Paging.Lifetime
import DemandPaging.Proofs.Mapping

/-!
The beginning and the end of address spaces. A teardown releases what the pages of the address space own and nothing
else, even if some of them cannot be written back.
-/

namespace DemandPaging

/-- The deed takes something away from the address space `id`. -/
def Deed.Clears (id : SpaceId) (d : Deed) : Prop := d = .forgetAll id ∨ ∃ va, d = .remove ⟨id, va⟩

/-- The view without the regions of `id`. -/
@[simps -fullyApplied] def View.withoutRegions (v : View) (id : SpaceId) : View :=
  { v with regions := fun p => if p.space = id then none else v.regions p }

theorem Deed.Clears.isOnPages {id : SpaceId} {d : Deed} (h : d.Clears id) : d.IsOnPages := by
  obtain rfl | ⟨va, rfl⟩ := h
  · trivial
  · trivial

namespace Paging

variable {s : System}

theorem performs_create (hs : s.WellFormed) (hv : s.view.Sound) {table : PageTable} (htable : table.Willing)
    (hentries : table.entries = ∅) :
    Performs (create table) s fun r ds t => r = .ok s.view.next ∧ ds = [.create s.view.next] ∧
      t.view = { s.view with
        live := fun id => id = s.view.next ∨ s.view.live id
        next := s.view.next + 1
        refuses := fun p => if p.space = s.view.next then p.va ∈ table.refuseMap else s.view.refuses p } := by
  have hfree : s.nextSpace ∉ s.spaces := fun hmem => Nat.lt_irrefl _ (@View.Sound.fresh _ hv s.nextSpace hmem)
  set t : System := { s with spaces := s.spaces.insert s.nextSpace { table := table }, nextSpace := s.nextSpace + 1 }
    with ht
  have hspace (id : SpaceId) : t.space id = if id = s.nextSpace then { table := table } else s.space id :=
    System.space_insert ..
  have hdefault : s.space s.nextSpace = ({} : Space) := by
    simp [World.space, Std.ExtTreeMap.getElem?_eq_none hfree]
  have hlives : (fun id => id ∈ t.spaces) = fun id => id = s.nextSpace ∨ id ∈ s.spaces := by
    funext id
    rw [ht, Std.ExtTreeMap.mem_insert, Std.compare_eq_iff_eq, @eq_comm _ id]
  -- An address space without pages looks like one that there is not.
  have hsame {β : Type} (get : Space → VirtAddr → Option β)
      (hget : ∀ va, get ({ table := table } : Space) va = get ({} : Space) va) :
      (fun p : PageId => get (t.space p.space) p.va) = fun p => get (s.space p.space) p.va := by
    funext p
    rw [hspace]
    split
    next h => rw [hget, h, hdefault]
    next => rfl
  have hview : t.view =
      { s.view with
        live := fun id => id = s.view.next ∨ s.view.live id
        next := s.view.next + 1
        refuses := fun p => if p.space = s.view.next then p.va ∈ table.refuseMap else s.view.refuses p } := by
    unfold System.view
    congr 1
    · exact hsame (fun sp va => sp.pages[va]?) fun va => rfl
    · exact hsame (fun sp va => sp.regions[va]?) fun va => rfl
    · exact hsame (fun sp va => sp.table.entries[va]?) fun va => by simp [hentries]
    · funext p
      rw [hspace]
      split <;> rfl
  refine ⟨⟨hs.pool, hs.swap, fun id => ?_, hs.retired⟩, [.create s.view.next], .single ?_, rfl, rfl, hview⟩
  · change (t.space id).table.Willing
    rw [hspace]
    split
    · exact htable
    · exact hs.tables id
  · change Does _ s.view t.view
    rw [hview]
    exact .create fun va => va ∈ table.refuseMap

/-- The pages of the regions go away one after the other. -/
theorem wp_removeRegions (hs : s.WellFormed) (hv : s.view.Sound) (id : SpaceId) (rs : List Region) :
    wp (removeRegions id rs) s (fun _ t => t.WellFormed ∧ ∃ l, l.map Prod.fst = rs.flatMap (Region.places id) ∧
      s.view.Leaves l t.view) fun _ _ => False := by
  induction rs generalizing s with
  | nil => exact ⟨hs, [], rfl, .done⟩
  | cons r rs ih =>
    unfold removeRegions removeRegion
    rw [wp_bind]
    refine (wp_removePages hs hv id r.addrs).mono (fun o t ht => ?_) fun _ _ => False.elim
    obtain ⟨ht, l, hl, hleaves, -⟩ := ht
    have hrest (u : System) (hu : u.WellFormed) (hview : u.view = t.view) :
        wp (removeRegions id rs) u (fun _ x => x.WellFormed ∧ ∃ l,
          l.map Prod.fst = (r :: rs).flatMap (Region.places id) ∧ s.view.Leaves l x.view) fun _ _ => False := by
      refine (ih hu (hview ▸ hleaves.sound hv rfl)).mono (fun _ x hx => ?_) fun _ _ => False.elim
      obtain ⟨hx, l', hl', hleaves'⟩ := hx
      refine ⟨hx, l ++ l', ?_, hleaves.append (hview ▸ hleaves')⟩
      rw [List.map_append, hl, hl', List.flatMap_cons]
      rfl
    cases o with
    | none => exact hrest t ht rfl
    | some e =>
      simp only [wp_bind]
      exact wp_note_of_view ht _ hrest

/-- The pages in the list have left the table of `id`; `v` is the view in which they have not. -/
theorem wp_releasePages {id : SpaceId} (l : List (VirtAddr × PageEntry)) (hs : s.WellFormed) {v : View} (hv : v.Sound)
    (hheld : v.held = none) (hview : { s.view with pages := v.pages } = v)
    (hl : ∀ va page, (va, page) ∈ l ↔ v.pages ⟨id, va⟩ = some page) (hnodup : (l.map Prod.fst).Nodup)
    (hpages : ∀ p, s.view.pages p = if p.space = id then none else v.pages p)
    {Q : Nat → System → Prop} {E : Failure → System → Prop}
    (h : ∀ n partings t, t.WellFormed → partings.map Prod.fst = l.map (fun entry => (⟨id, entry.1⟩ : PageId)) →
      v.Leaves partings t.view → Q n t) : wp (releasePages id l) s Q E := by
  induction l generalizing s v Q with
  | nil =>
    have hsame : s.view = v := by
      rw [← hview]
      refine congrArg (fun pages => { s.view with pages := pages }) (funext fun p => ?_)
      rw [show s.page? p = _ from hpages p]
      split
      next hp =>
        subst hp
        refine (Option.eq_none_iff_forall_not_mem.2 fun page hpage => ?_).symm
        simpa using (hl p.va page).2 hpage
      next => rfl
    subst hsame
    exact h 0 [] s hs rfl .done
  | cons entry rest ih =>
    obtain ⟨va, page⟩ := entry
    have hpage : v.pages ⟨id, va⟩ = some page := (hl va page).1 (List.mem_cons_self ..)
    rw [List.map_cons, List.nodup_cons] at hnodup
    have hnext (w : View) (t : System) (ht : t.WellFormed) {parting : Parting} (hparts : v.Parts ⟨id, va⟩ parting w)
        (hw : { t.view with pages := w.pages } = w) (htpages : t.view.pages = s.view.pages) (f : Nat → Nat) :
        wp (releasePages id rest) t (fun n u => Q (f n) u) E := by
      have hfreed := hparts.freed hv hheld
      refine ih ht (hparts.sound hv hheld) (hfreed.held.trans hheld) hw (fun va' page' => ?_) hnodup.2 (fun p => ?_)
        fun n partings u hu hfst hleaves => h (f n) _ u hu (congrArg _ hfst) (.next hparts hleaves)
      · by_cases hva : va' = va
        · subst hva
          rw [(hfreed.gone rfl).1]
          refine ⟨fun hmem => absurd (List.mem_map_of_mem hmem) hnodup.1, fun hnone => by cases hnone⟩
        · rw [(hfreed.kept (p := ⟨id, va'⟩) (by simpa using hva)).1, ← hl va' page']
          simp [hva]
      · rw [htpages, hpages]
        split
        next => rfl
        next hp => rw [(hfreed.kept (p := p) (fun e => hp (e ▸ rfl))).1]
    unfold releasePages
    simp only [wp_bind, wp_caught]
    refine wp_releasePage (p := ⟨id, va⟩) hs hv hheld hpage hview (fun w t ht hrelease hw htpages => ?_)
      fun e w t ht hlose hunsaved hw htpages => ?_
    · obtain ⟨parting, hparts, -⟩ := hrelease.exists_parts
      exact hnext w t ht hparts hw htpages fun n => n
    · exact hnext w t ht (hlose.parts hunsaved) hw htpages fun n => 1 + n

/-- In a teardown the pages of the regions go away first, and then those that are left. -/
theorem wp_teardown (hs : s.WellFormed) (hv : s.view.Sound) {id : SpaceId} (hlive : s.view.live id) :
    wp (teardown id) s (fun _ t => t.WellFormed ∧ ∃ l l',
      l.map Prod.fst = (s.space id).regions.values.flatMap (Region.places id) ∧ (l'.map Prod.fst).Nodup ∧
      (∀ p, p ∈ l'.map Prod.fst ↔ p.space = id ∧ (s.page? p).isSome ∧ p ∉ l.map Prod.fst) ∧
      (s.view.withoutRegions id).Leaves (l ++ l') t.view) fun _ _ => False := by
  unfold teardown
  simp only [wp_bind, wp_space]
  refine wp_eraseRegions_of_view hs hlive fun t ht hview => ?_
  have hforget : Does (.forgetAll id) s.view t.view := hview ▸ .forgetAll
  have hview' : t.view = s.view.withoutRegions id := hview
  have hv' : t.view.Sound := hforget.sound hv
  refine (wp_removeRegions ht hv' id _).mono (fun _ u hu => ?_) fun _ _ => False.elim
  obtain ⟨hu, l, hl, hleaves⟩ := hu
  have hfreed := hleaves.freed hv' rfl
  have hmem (va : VirtAddr) (page : PageEntry) :
      (va, page) ∈ (u.space id).pages.toList ↔ u.view.pages ⟨id, va⟩ = some page :=
    Std.ExtTreeMap.mem_toList_iff_getElem?_eq_some
  have hleft (p : PageId) : p ∈ (u.space id).pages.toList.map (fun entry => (⟨id, entry.1⟩ : PageId)) ↔
      p.space = id ∧ (s.page? p).isSome ∧ p ∉ l.map Prod.fst := by
    have hkept (hspace : p.space = id) : (s.page? p).isSome ∧ p ∉ l.map Prod.fst ↔ (u.view.pages p).isSome := by
      by_cases hp : p ∈ l.map Prod.fst
      · simp [hp, (hfreed.gone hp).1]
      · have hsame : t.view.pages p = s.page? p := by rw [hview']; rfl
        simp only [hp, not_false_eq_true, and_true, (hfreed.kept hp).1, hsame]
    constructor
    · intro hp
      obtain ⟨⟨va, page⟩, hentry, rfl⟩ := List.mem_map.1 hp
      exact ⟨rfl, (hkept rfl).2 (Option.isSome_of_eq_some ((hmem va page).1 hentry))⟩
    · rintro ⟨rfl, hp⟩
      obtain ⟨page, hpage⟩ := Option.isSome_iff_exists.1 ((hkept rfl).1 hp)
      exact List.mem_map.2 ⟨(p.va, page), (hmem p.va page).2 hpage, rfl⟩
  have hnodup : ((u.space id).pages.toList.map Prod.fst).Nodup := by
    rw [Std.ExtTreeMap.map_fst_toList_eq_keys]
    exact Std.ExtTreeMap.nodup_keys
  have hends {partings : List (PageId × Parting)} {x : System} (hx : x.WellFormed)
      (hfst : partings.map Prod.fst = (u.space id).pages.toList.map (fun entry => (⟨id, entry.1⟩ : PageId)))
      (hrest : u.view.Leaves partings x.view) : x.WellFormed ∧ ∃ l l',
        l.map Prod.fst = (s.space id).regions.values.flatMap (Region.places id) ∧ (l'.map Prod.fst).Nodup ∧
        (∀ p, p ∈ l'.map Prod.fst ↔ p.space = id ∧ (s.page? p).isSome ∧ p ∉ l.map Prod.fst) ∧
        (s.view.withoutRegions id).Leaves (l ++ l') x.view := by
    refine ⟨hx, l, partings, hl, ?_, fun p => by rw [hfst]; exact hleft p, hview' ▸ hleaves.append hrest⟩
    have hinj : Function.Injective (PageId.mk id) := fun va va' h => congrArg PageId.va h
    rw [hfst, ← Function.comp_def (PageId.mk id) Prod.fst, ← List.map_map]
    exact hnodup.map hinj
  by_cases hempty : (u.space id).pages.toList.isEmpty
  · simp only [hempty, ↓reduceIte, wp_pure]
    exact hends hu (by rw [List.isEmpty_iff.1 hempty]; rfl) .done
  · simp only [hempty, Bool.false_eq_true, ↓reduceIte, wp_bind]
    have hlive' : u.view.live id := by
      rw [hfreed.live, hview]
      exact hlive
    refine wp_erasePages_of_view hu hlive' fun x hx hviewx => ?_
    have hlimbo : { x.view with pages := u.view.pages } = u.view := by rw [hviewx]
    refine wp_releasePages _ hx (hleaves.sound hv' rfl) rfl hlimbo hmem hnodup (fun p => by rw [hviewx])
      fun n partings y hy hfst hrest => ?_
    split
    · simp only [wp_bind]
      refine wp_note_of_view hy _ fun z hz hviewz => ?_
      exact wp_note_of_view hz _ fun z' hz' hviewz' => hends hz' hfst (by rwa [hviewz', hviewz])
    · exact wp_note_of_view hy _ fun z hz hviewz => hends hz hfst (by rwa [hviewz])

/-- A teardown always succeeds. Afterwards the address space has neither pages nor regions, and what its pages owned is
free. -/
theorem performs_teardown (hs : s.WellFormed) (hv : s.view.Sound) {id : SpaceId} (hlive : s.view.live id) :
    Performs (teardown id) s fun r ds t => r = .ok () ∧ (∀ d ∈ ds, d.Clears id) ∧
      (s.view.withoutRegions id).Freed (·.space = id) t.view := by
  have hforget : Does (.forgetAll id) s.view (s.view.withoutRegions id) := .forgetAll
  have hv' := hforget.sound hv
  refine (wp_teardown hs hv hlive).mono (fun _ t ht => ?_) fun _ _ => False.elim
  obtain ⟨ht, l, l', hl, -, hleft, hleaves⟩ := ht
  have hspace (p : PageId) (hp : p ∈ (l ++ l').map Prod.fst) : p.space = id := by
    rw [List.map_append, List.mem_append, hl] at hp
    obtain hp | hp := hp
    · obtain ⟨r, -, hr⟩ := List.mem_flatMap.1 hp
      obtain ⟨va, -, rfl⟩ := List.mem_map.1 hr
      rfl
    · exact ((hleft p).1 hp).1
  have hfreed := hleaves.freed hv' rfl
  obtain ⟨ds, htrace, hds⟩ := hleaves.trace hv' rfl
  have hnone (p : PageId) (hp : p.space = id) : t.view.pages p = none := by
    by_cases hmem : p ∈ (l ++ l').map Prod.fst
    · exact (hfreed.gone hmem).1
    · rw [(hfreed.kept hmem).1]
      rw [List.map_append, List.mem_append, not_or] at hmem
      refine Option.not_isSome_iff_eq_none.1 fun hsome => hmem.2 ((hleft p).2 ⟨hp, hsome, hmem.1⟩)
  refine ⟨ht, _, .deed hforget htrace, rfl, fun d hd => ?_, ?_⟩
  · obtain rfl | hd := List.mem_cons.1 hd
    · exact .inl rfl
    · obtain ⟨p, hp, rfl⟩ := hds d hd
      exact .inr ⟨p.va, by rw [← hspace p hp]⟩
  · exact (hfreed.trans (.of_missing (hleaves.sound hv' rfl) hnone)).congr fun p =>
      ⟨fun hp => hp.elim (hspace p) fun h => h, .inr⟩

/-- Where there is nothing to release, a teardown does nothing. -/
theorem teardown_eq_of_empty {id : SpaceId} (hpages : (s.space id).pages = ∅) (hregions : (s.space id).regions = ∅) :
    teardown id s = .ok () s := by
  have hsame : s.spaces.modify id (fun sp => { sp with regions := ∅ }) = s.spaces := by
    refine Std.ExtTreeMap.ext_getElem? fun id' => ?_
    rw [Std.ExtTreeMap.getElem?_modify]
    split
    next h =>
      obtain rfl := Std.compare_eq_iff_eq.1 h
      cases hsp : s.spaces[id]? with
      | none => rfl
      | some sp =>
        rw [World.space, hsp, Option.getD_some] at hregions
        cases sp
        cases hregions
        rfl
    next => rfl
  have hvalues : (s.space id).regions.values = [] := by rw [hregions]; rfl
  have hlist : (s.space id).pages.toList = [] := by rw [hpages]; rfl
  have hwp : wp (teardown id) s (fun _ t => t = s) fun _ _ => False := by
    simp only [teardown, wp_bind, wp_space, hvalues, wp_modifySpace, hsame, removeRegions, wp_pure, hlist,
      List.isEmpty_nil, ↓reduceIte]
  unfold wp at hwp
  split at hwp
  next hrun => rw [hrun, hwp]
  next => exact hwp.elim

theorem performs_drop (hs : s.WellFormed) (hv : s.view.Sound) {id : SpaceId} (hlive : s.view.live id) :
    Performs (drop id) s fun r ds t => r = .ok () ∧ (∀ d ∈ ds, d.Clears id ∨ d = .finish id) ∧
      View.Freed (·.space = id) { s.view.withoutRegions id with live := fun id' => id' ≠ id ∧ s.view.live id' }
        t.view := by
  unfold Performs drop
  rw [wp_bind]
  refine (performs_teardown hs hv hlive).wp (fun u ds t ht htrace hr => ?_) fun f ds t ht htrace hr => ?_
  · obtain ⟨_, hds, hfreed⟩ := hr
    have hv' := htrace.sound hv
    have hpages (va : VirtAddr) : t.view.pages ⟨id, va⟩ = none := (hfreed.gone rfl).1
    have hentries (va : VirtAddr) : t.view.entries ⟨id, va⟩ = none := (hfreed.gone rfl).2
    have htable : (t.space id).table.entries = ∅ :=
      Std.ExtTreeMap.ext_getElem? fun va => (hentries va).trans Std.ExtTreeMap.getElem?_empty.symm
    set u : System := { t with spaces := t.spaces.erase id, retired := t.retired.push (t.space id).table } with hu
    have hspace (id' : SpaceId) : u.space id' = if id' = id then {} else t.space id' := System.space_erase ..
    have hsame {β : Type} (get : Space → VirtAddr → Option β) (hnone : ∀ va, get (t.space id) va = none)
        (hempty : ∀ va, get ({} : Space) va = none) :
        (fun p : PageId => get (u.space p.space) p.va) = fun p => get (t.space p.space) p.va := by
      funext p
      rw [hspace]
      split
      next h => rw [hempty, h, hnone]
      next => rfl
    have hlives : (fun id' => id' ∈ u.spaces) = fun id' => id' ≠ id ∧ id' ∈ t.spaces := by
      funext id'
      simp [hu, Std.ExtTreeMap.mem_erase, @eq_comm _ id]
    have hview : u.view =
        { t.view with
          live := fun id' => id' ≠ id ∧ t.view.live id'
          regions := fun p => if p.space = id then none else t.view.regions p
          refuses := fun p => p.space ≠ id ∧ t.view.refuses p } := by
      unfold System.view
      congr 1
      · exact hsame (fun sp va => sp.pages[va]?) hpages fun va => Std.ExtTreeMap.getElem?_empty
      · funext p
        simp only [System.region?, hspace]
        split <;> simp
      · exact hsame (fun sp va => sp.table.entries[va]?) hentries fun va => Std.ExtTreeMap.getElem?_empty
      · funext p
        simp only [hspace]
        split
        next h => simp [h]
        next h => simp [h]
    have hfinish : Does (.finish id) t.view u.view := hview ▸ .finish hpages
    refine ⟨⟨ht.pool, ht.swap, fun id' => ?_, fun table hmem => ?_⟩, _, htrace.append (.single hfinish), rfl, ?_, ?_⟩
    · change (u.space id').table.Willing
      rw [hspace]
      split
      · exact PageTable.willing_default
      · exact ht.tables id'
    · obtain hmem | rfl := Array.mem_push.1 hmem
      · exact ht.retired table hmem
      · exact htable
    · intro d hd
      obtain hd | hd := List.mem_append.1 hd
      · exact .inl (hds d hd)
      · exact .inr (List.mem_singleton.1 hd)
    · change View.Freed _ _ u.view
      rw [hview]
      have hregions : (fun p => if p.space = id then none else t.view.regions p) =
          (s.view.withoutRegions id).regions := by
        rw [hfreed.regions]
        funext p
        by_cases hp : p.space = id <;> simp [hp]
      rw [hregions, show t.view.live = s.view.live from hfreed.live]
      exact hfreed.withSpaces _ _ _
  · cases hr.1

end Paging

end DemandPaging
