import Mathlib.Data.Set.Card
import DemandPaging.Proofs.Reachability

/-!
The consistency of residency and ownership. The pages of all address spaces, the registry of the pager, the hardware
page tables and the swap device tell the same story after every call.
-/

namespace DemandPaging

namespace System

/-- What the pages, the registry, the hardware page tables and the swap device say of each other. -/
structure Consistent (s : System) : Prop where
  /-- A page is in a frame exactly if the registry knows it as the owner of that frame. -/
  registered : ∀ {p page pa}, s.page? p = some page →
    (page.frame = some pa ↔ s.pager.resident.get? pa = some ⟨p.space, p.va, page.writable⟩)
  /-- The registry knows no other owners. -/
  owned : ∀ {pa o}, s.pager.resident.get? pa = some o →
    o.space ∈ s.spaces ∧ ∃ page, s.page? ⟨o.space, o.va⟩ = some page ∧ page.frame = some pa ∧
      page.writable = o.writable
  /-- A page is in a frame exactly if its hardware entry leads there and allows what the page does. -/
  mapped : ∀ {p page pa}, s.page? p = some page →
    (page.frame = some pa ↔ ∃ e, s.entry? p = some e ∧ e.frame = pa ∧ e.flags.present = true ∧ e.flags.user = true ∧
      e.flags.writable = page.writable)
  unmapped : ∀ {p}, (∀ page, s.page? p = some page → page.frame = none) → s.entry? p = none
  alone : ∀ {p q page page' pa}, s.page? p = some page → page.frame = some pa → s.page? q = some page' →
    page'.frame = some pa → p = q
  /-- An anonymous page that was loaded is either in a frame or in a slot. -/
  anonymous : ∀ {p page slot}, s.page? p = some page → page.kind = .anon slot → (slot = none ↔ page.frame ≠ none)
  pending : ∀ {p page q}, s.page? p = some page → page.kind = .pending q → page.frame = none
  /-- A slot that holds a page is marked as used, and no slot is used without a page. -/
  used : ∀ {slot}, s.pager.swap.isUsed slot = true ↔ ∃ p page, s.page? p = some page ∧ page.kind = .anon (some slot)
  unshared : ∀ {p q page page' slot}, s.page? p = some page → page.kind = .anon (some slot) →
    s.page? q = some page' → page'.kind = .anon (some slot) → p = q
  counted : Set.encard {p | ∃ page slot, s.page? p = some page ∧ page.kind = .anon (some slot)} = s.pager.swap.inUse

variable {s : System}

theorem slotOf_eq_some_iff {p : PageId} {slot : SwapSlot} :
    s.view.slotOf p = some slot ↔ ∃ page, s.page? p = some page ∧ page.kind = .anon (some slot) := by
  rw [View.slotOf, Option.bind_eq_some_iff]
  refine exists_congr fun page => and_congr_right fun _ => ?_
  cases page.kind with
  | anon slot' => simp [PageKind.slot?]
  | pending q => simp [PageKind.slot?]
  | file w => simp [PageKind.slot?]

theorem isUsed_iff (hv : s.view.Sound) (slot : SwapSlot) :
    s.pager.swap.isUsed slot = true ↔ ∃ p, s.view.slotOf p = some slot := by
  rw [SwapDevice.isUsed, ← IndexPool.mem_members, ← hv.slots.used]
  change _ ↔ (s.pager.swap.page? slot).isSome
  rw [← not_iff_not, Option.not_isSome_iff_eq_none, SwapDevice.page?_eq_none_iff]

/-- As many slots are in use as pages are in slots. -/
theorem encard_slotOf (hs : s.WellFormed) (hv : s.view.Sound) :
    Set.encard {p | ∃ slot, s.view.slotOf p = some slot} = s.pager.swap.inUse := by
  set index : PageId → Nat := fun p => ((s.view.slotOf p).map SwapSlot.index).getD 0 with hindex
  have hinj : Set.InjOn index {p | ∃ slot, s.view.slotOf p = some slot} := by
    rintro p ⟨⟨i⟩, hp⟩ q ⟨⟨j⟩, hq⟩ heq
    simp only [hindex, hp, hq, Option.map_some, Option.getD_some] at heq
    subst heq
    exact hv.slots.unique hp hq
  have himage : index '' {p | ∃ slot, s.view.slotOf p = some slot} = ↑s.pager.swap.slots.members := by
    ext i
    have hused := isUsed_iff hv ⟨i⟩
    rw [SwapDevice.isUsed, ← IndexPool.mem_members] at hused
    rw [Finset.mem_coe, hused]
    constructor
    · rintro ⟨p, ⟨⟨j⟩, hp⟩, rfl⟩
      exact ⟨p, by simp [hindex, hp]⟩
    · rintro ⟨p, hp⟩
      exact ⟨p, ⟨_, hp⟩, by simp [hindex, hp]⟩
  rw [← hinj.encard_image, himage, Set.encard_coe_eq_coe_finsetCard, SwapDevice.inUse, hs.swap.slots.taken]

/-- What ownership in order means for the records. -/
theorem consistent_of_sound (hs : s.WellFormed) (hv : s.view.Sound) : s.Consistent where
  registered {p page pa} hpage := by
    refine ⟨fun hframe => hv.resident_of_frame hpage hframe, fun hresident => ?_⟩
    obtain ⟨page', hpage', hframe, _⟩ := hv.resident.1 hresident
    rw [show s.view.pages (Occupant.id ⟨p.space, p.va, page.writable⟩) = some page from hpage] at hpage'
    exact Option.some.inj hpage' ▸ hframe
  owned {pa o} ho := by
    obtain ⟨page, hpage, hrest⟩ := hv.resident.1 ho
    exact ⟨(hv.page hpage).1, page, hpage, hrest⟩
  mapped {p page pa} hpage := by
    refine ⟨fun hframe => ?_, fun ⟨e, hentry, hlead, _⟩ => ?_⟩
    · obtain ⟨e, hentry, hlead⟩ := hv.entry_of_frame hpage hframe
      have hflags := congrArg Prod.snd hlead
      exact ⟨e, hentry, congrArg Prod.fst hlead, (congrArg EntryFlags.present hflags : _),
        (congrArg EntryFlags.user hflags : _), (congrArg EntryFlags.writable hflags : _)⟩
    · obtain ⟨page', pa', hpage', hframe, hlead'⟩ := hv.page_of_entry hentry
      rw [show s.view.pages p = some page from hpage, Option.some.injEq] at hpage'
      rw [hpage', hframe, ← hlead]
      exact congrArg some (congrArg Prod.fst hlead').symm
  unmapped hbare := hv.entry_eq_none hbare
  alone hpage hframe hpage' hframe' := hv.eq_of_frame hpage hframe hpage' hframe'
  anonymous {p page slot} hpage hkind := by
    have hfits := (hv.page hpage).2.kind
    rwa [hkind] at hfits
  pending {p page q} hpage hkind := by
    have hfits := (hv.page hpage).2.kind
    rwa [hkind] at hfits
  used {slot} := by
    rw [isUsed_iff hv]
    exact exists_congr fun p => slotOf_eq_some_iff
  unshared hpage hkind hpage' hkind' :=
    hv.slots.unique (slotOf_eq_some_iff.2 ⟨_, hpage, hkind⟩) (slotOf_eq_some_iff.2 ⟨_, hpage', hkind'⟩)
  counted := by
    rw [← encard_slotOf hs hv]
    congr 1
    ext p
    simp only [Set.mem_ofPred_eq, slotOf_eq_some_iff]
    exact exists_comm

/-- Residency and ownership are consistent in every state that a run leads to, whatever fails on the way. -/
theorem Reachable.consistent (h : s.Reachable) : s.Consistent := consistent_of_sound h.wellFormed h.sound

/-- Of two pages that take turns in a single frame, one is in the frame and the other one in a slot. -/
theorem exists_consistent : ∃ s : System, s.Reachable ∧ s.pager.resident.size = 1 ∧ s.pager.swap.inUse = 1 ∧
    s.Consistent :=
  ⟨_, .small_turns, by decide +kernel, by decide +kernel, Reachable.consistent .small_turns⟩

end System

end DemandPaging
