import DemandPaging.Proofs.Deeds

/-!
What is left of a view when pages go away. Their frames and slots are free and no hardware entry leads to them, whether
or not their bytes could be written back; what other pages own is as it was.
-/

namespace DemandPaging

namespace View

/-- Some page in `P` is in the frame at `pa`. -/
def HasFrame (v : View) (P : PageId → Prop) (pa : PhysAddr) : Prop :=
  ∃ p page, P p ∧ v.pages p = some page ∧ page.frame = some pa

/-- Some page in `P` is in the slot `slot`. -/
def HasSlot (v : View) (P : PageId → Prop) (slot : SwapSlot) : Prop := ∃ p, P p ∧ v.slotOf p = some slot

/-- The second view is the first one without the pages in `P`. Files may differ. -/
structure Freed (P : PageId → Prop) (v w : View) : Prop where
  live : w.live = v.live
  next : w.next = v.next
  regions : w.regions = v.regions
  lent : w.lent = v.lent
  held : w.held = v.held
  gone : ∀ {p}, P p → w.pages p = none ∧ w.entries p = none
  kept : ∀ {p}, ¬ P p → w.pages p = v.pages p ∧ w.entries p = v.entries p
  frame_free : ∀ {pa}, v.HasFrame P pa → w.frames pa = none
  frame_kept : ∀ {pa}, ¬ v.HasFrame P pa → w.frames pa = v.frames pa
  slot_free : ∀ {slot}, v.HasSlot P slot → w.slots slot = none
  slot_kept : ∀ {slot}, ¬ v.HasSlot P slot → w.slots slot = v.slots slot

namespace Freed

variable {P Q : PageId → Prop} {u v w : View}

/-- Pages that are not there leave nothing behind. -/
theorem of_missing (hv : v.Sound) (hP : ∀ p, P p → v.pages p = none) : Freed P v v where
  live := rfl
  next := rfl
  regions := rfl
  lent := rfl
  held := rfl
  gone {p} hp := ⟨hP p hp, hv.entry_eq_none fun page hpage => by rw [hP p hp] at hpage; cases hpage⟩
  kept _ := ⟨rfl, rfl⟩
  frame_free hpa := by
    obtain ⟨p, page, hp, hpage, _⟩ := hpa
    rw [hP p hp] at hpage
    cases hpage
  frame_kept _ := rfl
  slot_free hslot := by
    obtain ⟨p, hp, hslot⟩ := hslot
    rw [slotOf, hP p hp] at hslot
    cases hslot
  slot_kept _ := rfl

theorem congr (h : Freed P v w) (hPQ : ∀ p, P p ↔ Q p) : Freed Q v w := by
  obtain rfl : P = Q := funext fun p => propext (hPQ p)
  exact h

/-- Address spaces and regions may change alongside. -/
theorem withSpaces (h : Freed P v w) (live : SpaceId → Prop) (regions : PageId → Option Region)
    (refuses : PageId → Prop) : Freed P { v with live := live, regions := regions }
      { w with live := live, regions := regions, refuses := refuses } :=
  ⟨rfl, h.next, rfl, h.lent, h.held, h.gone, h.kept, h.frame_free, h.frame_kept, h.slot_free, h.slot_kept⟩

theorem slotOf_kept (h : Freed P v w) {p : PageId} (hp : ¬ P p) : w.slotOf p = v.slotOf p := by
  rw [slotOf, slotOf, (h.kept hp).1]

theorem hasFrame_iff (h : Freed P u v) {pa : PhysAddr} :
    u.HasFrame (fun p => P p ∨ Q p) pa ↔ u.HasFrame P pa ∨ v.HasFrame Q pa := by
  constructor
  · rintro ⟨p, page, hp, hpage, hframe⟩
    by_cases hP : P p
    · exact .inl ⟨p, page, hP, hpage, hframe⟩
    · exact .inr ⟨p, page, hp.resolve_left hP, (h.kept hP).1.trans hpage, hframe⟩
  · rintro (⟨p, page, hp, hpage, hframe⟩ | ⟨p, page, hp, hpage, hframe⟩)
    · exact ⟨p, page, .inl hp, hpage, hframe⟩
    · have hP : ¬ P p := fun hP => by rw [(h.gone hP).1] at hpage; cases hpage
      exact ⟨p, page, .inr hp, (h.kept hP).1.symm.trans hpage, hframe⟩

theorem hasSlot_iff (h : Freed P u v) {slot : SwapSlot} :
    u.HasSlot (fun p => P p ∨ Q p) slot ↔ u.HasSlot P slot ∨ v.HasSlot Q slot := by
  constructor
  · rintro ⟨p, hp, hslot⟩
    by_cases hP : P p
    · exact .inl ⟨p, hP, hslot⟩
    · exact .inr ⟨p, hp.resolve_left hP, (h.slotOf_kept hP).trans hslot⟩
  · rintro (⟨p, hp, hslot⟩ | ⟨p, hp, hslot⟩)
    · exact ⟨p, .inl hp, hslot⟩
    · have hP : ¬ P p := fun hP => by rw [slotOf, (h.gone hP).1] at hslot; cases hslot
      exact ⟨p, .inr hp, (h.slotOf_kept hP).symm.trans hslot⟩

theorem trans (h : Freed P u v) (h' : Freed Q v w) : Freed (fun p => P p ∨ Q p) u w where
  live := h'.live.trans h.live
  next := h'.next.trans h.next
  regions := h'.regions.trans h.regions
  lent := h'.lent.trans h.lent
  held := h'.held.trans h.held
  gone {p} hp := by
    by_cases hQ : Q p
    · exact h'.gone hQ
    · obtain ⟨hpages, hentries⟩ := h.gone (hp.resolve_right hQ)
      exact ⟨(h'.kept hQ).1.trans hpages, (h'.kept hQ).2.trans hentries⟩
  kept {p} hp := by
    obtain ⟨hP, hQ⟩ := not_or.1 hp
    exact ⟨(h'.kept hQ).1.trans (h.kept hP).1, (h'.kept hQ).2.trans (h.kept hP).2⟩
  frame_free {pa} hpa := by
    by_cases hQ : v.HasFrame Q pa
    · exact h'.frame_free hQ
    · exact (h'.frame_kept hQ).trans (h.frame_free ((h.hasFrame_iff.1 hpa).resolve_right hQ))
  frame_kept {pa} hpa := by
    obtain ⟨hP, hQ⟩ := not_or.1 (h.hasFrame_iff.not.1 hpa)
    exact (h'.frame_kept hQ).trans (h.frame_kept hP)
  slot_free {slot} hslot := by
    by_cases hQ : v.HasSlot Q slot
    · exact h'.slot_free hQ
    · exact (h'.slot_kept hQ).trans (h.slot_free ((h.hasSlot_iff.1 hslot).resolve_right hQ))
  slot_kept {slot} hslot := by
    obtain ⟨hP, hQ⟩ := not_or.1 (h.hasSlot_iff.not.1 hslot)
    exact (h'.slot_kept hQ).trans (h.slot_kept hP)

end Freed

variable {v v' : View} {p : PageId}

theorem hasFrame_eq_iff {page : PageEntry} (hpage : v.pages p = some page) {pa : PhysAddr} :
    v.HasFrame (· = p) pa ↔ page.frame = some pa := by
  constructor
  · rintro ⟨_, page', rfl, hpage', hframe⟩
    rw [hpage, Option.some.injEq] at hpage'
    exact hpage' ▸ hframe
  · exact fun hframe => ⟨p, page, rfl, hpage, hframe⟩

theorem hasSlot_eq_iff {slot : SwapSlot} : v.HasSlot (· = p) slot ↔ v.slotOf p = some slot :=
  ⟨fun ⟨_, hp, hslot⟩ => hp ▸ hslot, fun hslot => ⟨p, rfl, hslot⟩⟩

/-- A page that leaves its frame, which is free then, and goes away. -/
theorem freed_resident (hv : v.Sound) {page : PageEntry} {pa : PhysAddr} (hpage : v.pages p = some page)
    (hframe : page.frame = some pa) (hheld : v.held = none) (files : FileId → Option File) :
    Freed (· = p) v { ((v.vacate p pa none).setFrame pa none).letGo with files := files } where
  live := rfl
  next := rfl
  regions := rfl
  lent := rfl
  held := hheld.symm
  gone {q} hq := by subst hq; simp [View.vacate]
  kept {q} hq := by simp [View.vacate, hq]
  frame_free {pa'} hpa := by
    rw [hasFrame_eq_iff hpage, hframe, Option.some.injEq] at hpa
    subst hpa
    simp [View.vacate]
  frame_kept {pa'} hpa := by
    rw [hasFrame_eq_iff hpage, hframe, Option.some.injEq] at hpa
    simp [View.vacate, Ne.symm hpa]
  slot_free hslot := by
    rw [hasSlot_eq_iff, hv.slotOf_of_frame hpage hframe] at hslot
    cases hslot
  slot_kept _ := rfl

/-- A page that is not resident leaves the slot that it may be in, and goes away. -/
theorem freed_bare (hv : v.Sound) {page : PageEntry} (hpage : v.pages p = some page) (hframe : page.frame = none)
    {slots : SwapSlot → Option PageContent} (hfree : ∀ slot, v.slotOf p = some slot → slots slot = none)
    (hkept : ∀ slot, v.slotOf p ≠ some slot → slots slot = v.slots slot) :
    Freed (· = p) v { v.setPage p none with slots := slots } where
  live := rfl
  next := rfl
  regions := rfl
  lent := rfl
  held := rfl
  gone {q} hq := by
    subst hq
    refine ⟨Function.update_self .., hv.entry_eq_none fun page' hpage' => ?_⟩
    rw [hpage, Option.some.injEq] at hpage'
    exact hpage' ▸ hframe
  kept {q} hq := by simp [hq]
  frame_free hpa := by
    rw [hasFrame_eq_iff hpage, hframe] at hpa
    cases hpa
  frame_kept _ := rfl
  slot_free hslot := hfree _ (hasSlot_eq_iff.1 hslot)
  slot_kept hslot := hkept _ (hasSlot_eq_iff.not.1 hslot)

theorem Releases.freed (h : v.Releases p v') (hv : v.Sound) (hheld : v.held = none) : Freed (· = p) v v' := by
  cases h with
  | resident hpage hframe hwrite =>
    obtain ⟨rfl, _⟩ | ⟨w, e, content, _, _, _, _, hwrite⟩ := hwrite
    · exact freed_resident hv hpage hframe hheld _
    · cases hwrite with
      | nothing => exact freed_resident hv hpage hframe hheld _
      | bytes => exact freed_resident hv hpage hframe hheld _
  | @swapped page slot hpage hframe hkind =>
    have hslotOf : v.slotOf p = some slot := by simp [slotOf, hpage, hkind, PageKind.slot?]
    refine freed_bare hv hpage hframe (fun slot' hslot' => ?_) fun slot' hslot' => ?_
    · rw [hslotOf, Option.some.injEq] at hslot'
      subst hslot'
      exact Function.update_self ..
    · rw [hslotOf, ne_eq, Option.some.injEq] at hslot'
      exact Function.update_of_ne (Ne.symm hslot') ..
  | @bare page hpage hframe hkind =>
    have hslotOf : v.slotOf p = none := by simp [slotOf, hpage, hkind]
    refine freed_bare hv hpage hframe (fun slot hslot => ?_) fun slot _ => rfl
    rw [hslotOf] at hslot
    cases hslot

theorem Loses.freed (h : v.Loses p v') (hv : v.Sound) (hheld : v.held = none) : Freed (· = p) v v' := by
  cases h with
  | lose hpage hframe _ _ _ _ hwrite =>
    cases hwrite with
    | stopped => exact freed_resident hv hpage hframe hheld _

end View

end DemandPaging
