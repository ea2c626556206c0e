import Mathlib.Data.Multiset.Filter
import DemandPaging.Proofs.Consistency

/-!
The balance of frames and slots. Every frame is free, lent or resident; a teardown gives back what the pages of one
address space own, and nothing is left when all address spaces have ended.
-/

namespace DemandPaging

namespace System

/-- The frames that are lent to callers. -/
def lentFrames (s : System) : Multiset PhysAddr := s.pager.lent.toList.filterMap id

/-- The number of frames that are lent to callers. -/
def lentCount (s : System) : Nat := s.pager.lent.countP Option.isSome

variable {s t : System}

theorem card_lentFrames (s : System) : s.lentFrames.card = s.lentCount := by
  rw [lentFrames, Multiset.coe_card, List.length_filterMap_eq_countP, lentCount, Array.countP_toList]
  rfl

theorem count_lentFrames (s : System) (pa : PhysAddr) : s.lentFrames.count pa = s.pager.lent.count (some pa) := by
  rw [lentFrames, Multiset.coe_count, List.count_filterMap, ← Array.count_toList, List.count]
  refine List.countP_congr fun o _ => ?_
  simp

private theorem ite_eq_toNat {P : Prop} [Decidable P] {b : Bool} (h : P ↔ b = true) :
    (if P then 1 else 0) = b.toNat := by
  cases b <;> simp_all

/-- The frames in use are those that pages are in and those that are lent. -/
theorem used_eq (hv : s.view.Sound) :
    s.pager.pool.used = s.pager.resident.keySet + s.lentFrames := by
  refine Multiset.ext.2 fun pa => ?_
  have howner := hv.owner pa
  change (s.pager.pool.frame? pa).isSome.toNat = (s.pager.resident.get? pa).isSome.toNat +
    s.pager.lent.count (some pa) + 0 at howner
  rw [Multiset.count_add, count_lentFrames, Multiset.count_eq_of_nodup s.pager.pool.nodup_used,
    Multiset.count_eq_of_nodup s.pager.resident.nodup_keySet]
  have hkey : pa ∈ s.pager.resident.keySet ↔ (s.pager.resident.get? pa).isSome := by
    rw [Clock.mem_keySet, Option.isSome_iff_exists]
  rw [ite_eq_toNat FramePool.isSome_frame?.symm, ite_eq_toNat hkey, howner, Nat.add_zero]

/-- Every frame is free, resident or lent. -/
theorem frames_balance (hs : s.WellFormed) (hv : s.view.Sound) :
    s.pager.stats.frames = s.pager.stats.freeFrames + s.pager.stats.resident + s.lentCount := by
  have hbalance := hs.pool.freeFrames_add_card
  rw [used_eq hv, Multiset.card_add, Clock.card_keySet, card_lentFrames] at hbalance
  simp only [Pager.stats]
  omega

/-- The page at `p` of `s` is in the frame at `pa`. -/
def IsIn (s : System) (p : PageId) (pa : PhysAddr) : Prop := ∃ page, s.page? p = some page ∧ page.frame = some pa

/-- The page at `p` of `s` is in the slot `slot`. -/
def IsInSlot (s : System) (p : PageId) (slot : SwapSlot) : Prop :=
  ∃ page, s.page? p = some page ∧ page.kind = .anon (some slot)

/-- The address space `id` has been emptied: what its pages owned is free, and all else is as it was in `s`. -/
structure Emptied (s : System) (id : SpaceId) (t : System) : Prop where
  pages : (t.space id).pages = ∅
  regions : (t.space id).regions = ∅
  entries : (t.space id).table.entries = ∅
  others : ∀ {p}, p.space ≠ id → t.page? p = s.page? p ∧ t.region? p = s.region? p ∧ t.entry? p = s.entry? p
  resident : ∀ {pa o}, t.pager.resident.get? pa = some o ↔ s.pager.resident.get? pa = some o ∧ o.space ≠ id
  frame_free : ∀ {va pa}, s.IsIn ⟨id, va⟩ pa → t.pager.pool.frame? pa = none
  frame_kept : ∀ {pa}, (∀ va, ¬ s.IsIn ⟨id, va⟩ pa) → t.pager.pool.frame? pa = s.pager.pool.frame? pa
  slot_free : ∀ {va slot}, s.IsInSlot ⟨id, va⟩ slot → t.pager.swap.page? slot = none
  slot_kept : ∀ {slot}, (∀ va, ¬ s.IsInSlot ⟨id, va⟩ slot) → t.pager.swap.page? slot = s.pager.swap.page? slot
  spaces : ∀ {id'}, id' ∈ t.spaces ↔ id' ∈ s.spaces
  lent : t.pager.lent = s.pager.lent

theorem emptied_of_freed {id : SpaceId} (hv : s.view.Sound) (ht : t.view.Sound)
    (h : (s.view.withoutRegions id).Freed (·.space = id) t.view) : s.Emptied id t := by
  have hregions (p : PageId) : t.region? p = if p.space = id then none else s.region? p := congrFun h.regions p
  have hkept {p : PageId} (hp : p.space ≠ id) : t.page? p = s.page? p ∧ t.entry? p = s.entry? p := h.kept hp
  have hslotOf (p : PageId) (slot : SwapSlot) :
      (s.view.withoutRegions id).slotOf p = some slot ↔ s.IsInSlot p slot := slotOf_eq_some_iff
  refine ⟨?_, ?_, ?_, fun {p} hp => ⟨(hkept hp).1, ?_, (hkept hp).2⟩, fun {pa o} => ?_, fun {va pa} hpa => ?_,
    fun {pa} hpa => ?_, fun {va slot} hslot => ?_, fun {slot} hslot => ?_, fun {id'} => ?_, h.lent⟩
  · refine Std.ExtTreeMap.ext_getElem? fun va => ?_
    rw [Std.ExtTreeMap.getElem?_empty]
    exact (@View.Freed.gone _ _ _ h ⟨id, va⟩ rfl).1
  · refine Std.ExtTreeMap.ext_getElem? fun va => ?_
    rw [Std.ExtTreeMap.getElem?_empty]
    exact (hregions ⟨id, va⟩).trans (if_pos rfl)
  · refine Std.ExtTreeMap.ext_getElem? fun va => ?_
    rw [Std.ExtTreeMap.getElem?_empty]
    exact (@View.Freed.gone _ _ _ h ⟨id, va⟩ rfl).2
  · rw [hregions, if_neg hp]
  · change t.view.resident pa = some o ↔ s.view.resident pa = some o ∧ _
    rw [ht.resident, hv.resident]
    by_cases ho : o.space = id
    · have hgone : t.view.pages o.id = none := (h.gone ho).1
      simp [hgone, ho]
    · have hsame : t.view.pages o.id = s.view.pages o.id := (h.kept ho).1
      simp [hsame, ho]
  · obtain ⟨page, hpage, hframe⟩ := hpa
    exact h.frame_free ⟨⟨id, va⟩, page, rfl, hpage, hframe⟩
  · refine h.frame_kept ?_
    rintro ⟨⟨_, va⟩, page, rfl, hpage, hframe⟩
    exact hpa va ⟨page, hpage, hframe⟩
  · exact h.slot_free ⟨⟨id, va⟩, rfl, (hslotOf _ _).2 hslot⟩
  · refine h.slot_kept ?_
    rintro ⟨⟨_, va⟩, rfl, hslot'⟩
    exact hslot va ((hslotOf _ _).1 hslot')
  · exact iff_of_eq (congrFun h.live id')

/-- A teardown succeeds and empties the address space. -/
theorem exists_teardown (hs : s.WellFormed) (hv : s.view.Sound) {id : SpaceId} (hid : id ∈ s.spaces) :
    ∃ t, Paging.teardown id s = .ok () t ∧ s.Emptied id t := by
  have hrun := Paging.performs_teardown hs hv hid
  unfold Paging.Performs Paging.wp at hrun
  split at hrun
  next t h =>
    obtain ⟨_, ds, htrace, _, _, hfreed⟩ := hrun
    exact ⟨t, h, emptied_of_freed hv (htrace.sound hv) hfreed⟩
  next =>
    obtain ⟨_, ds, _, h, _⟩ := hrun
    cases h

/-- Where there are neither address spaces nor loans, every frame and every slot is free. -/
theorem all_free (hs : s.WellFormed) (hv : s.view.Sound) (hspaces : s.spaces = ∅)
    (hlent : ∀ l ∈ s.pager.lent, l = none) :
    s.pager.stats.freeFrames = s.pager.stats.frames ∧ s.pager.stats.resident = 0 ∧ s.pager.stats.swapInUse = 0 := by
  have hnone (p : PageId) : s.view.pages p = none := by
    refine Option.eq_none_iff_forall_not_mem.2 fun page hpage => ?_
    have hlive : p.space ∈ s.spaces := (hv.page hpage).1
    rw [hspaces] at hlive
    exact Std.ExtTreeMap.not_mem_empty hlive
  have hresident : s.pager.stats.resident = 0 := by
    have hempty : s.pager.resident.keySet = 0 := by
      refine Multiset.eq_zero_iff_forall_notMem.2 fun pa hpa => ?_
      obtain ⟨o, ho⟩ := Clock.mem_keySet.1 hpa
      obtain ⟨page, hpage, _⟩ := hv.resident.1 ho
      rw [hnone] at hpage
      cases hpage
    change s.pager.resident.size = 0
    rw [← Clock.card_keySet, hempty, Multiset.card_zero]
  have hcount : s.lentCount = 0 := by
    refine Array.countP_eq_zero.2 fun l hl => ?_
    rw [hlent l hl]
    exact Bool.false_ne_true
  have hslots : s.pager.stats.swapInUse = 0 := by
    change s.pager.swap.slots.taken = 0
    rw [hs.swap.slots.taken, Finset.card_eq_zero]
    refine Finset.eq_empty_of_forall_notMem fun i hi => ?_
    have hused : (s.view.slots ⟨i⟩).isSome := by
      change (s.pager.swap.page? ⟨i⟩).isSome
      rw [SwapDevice.page?, if_pos hi]
      rfl
    obtain ⟨p, hp⟩ := hv.slots.used.1 hused
    rw [View.slotOf, hnone] at hp
    cases hp
  have hbalance := frames_balance hs hv
  exact ⟨by omega, hresident, hslots⟩

/-- No frame and no slot is ever leaked or counted twice. -/
theorem Reachable.balanced (h : s.Reachable) :
    s.pager.stats.frames = s.pager.stats.freeFrames + s.pager.stats.resident + s.lentCount ∧
    (∀ id ∈ s.spaces, ∃ t, Paging.teardown id s = .ok () t ∧ s.Emptied id t ∧ Paging.teardown id t = .ok () t) ∧
    (s.spaces = ∅ → (∀ l ∈ s.pager.lent, l = none) →
      s.pager.stats.freeFrames = s.pager.stats.frames ∧ s.pager.stats.resident = 0 ∧ s.pager.stats.swapInUse = 0 ∧
        ∀ table ∈ s.retired, table.entries = ∅) := by
  refine ⟨frames_balance h.wellFormed h.sound, fun id hid => ?_, fun hspaces hlent => ?_⟩
  · obtain ⟨t, hrun, hempty⟩ := exists_teardown h.wellFormed h.sound hid
    exact ⟨t, hrun, hempty, Paging.teardown_eq_of_empty hempty.pages hempty.regions⟩
  · obtain ⟨hfree, hresident, hslots⟩ := all_free h.wellFormed h.sound hspaces hlent
    exact ⟨hfree, hresident, hslots, h.wellFormed.retired⟩

/-- One page is in the only frame and one in a slot; nothing of this is left after a teardown, or once the space has
ended. -/
theorem exists_balanced : ∃ s t : System, s.Reachable ∧ s.pager.stats = ⟨1, 0, 1, 1, 2, 1⟩ ∧
    s.pager.stats.frames = s.pager.stats.freeFrames + s.pager.stats.resident + s.lentCount ∧
    (∃ u, Paging.teardown 0 s = .ok () u ∧ s.Emptied 0 u ∧ Paging.teardown 0 u = .ok () u) ∧
    t = s.after [.drop 0] ∧ t.pager.stats.freeFrames = t.pager.stats.frames ∧ t.pager.stats.resident = 0 ∧
    t.pager.stats.swapInUse = 0 ∧ ∀ table ∈ t.retired, table.entries = ∅ := by
  obtain ⟨hbalance, hteardown, _⟩ := Reachable.balanced .small_turns
  have hdropped : ((small.after Reachable.turns).after [.drop 0]).Reachable :=
    Reachable.small_turns.after (by decide +kernel)
  obtain ⟨_, _, hend⟩ := Reachable.balanced hdropped
  have hspaces : ((small.after Reachable.turns).after [.drop 0]).spaces = ∅ :=
    Std.ExtTreeMap.isEmpty_iff.1 (by decide +kernel)
  exact ⟨_, _, .small_turns, by decide +kernel, hbalance, hteardown 0 (by decide +kernel), rfl,
    hend hspaces (by decide +kernel)⟩

end System

end DemandPaging
