import DemandPaging.Proofs.Ownership

/-!
The ways in which frames and slots change hands. Whatever an operation does to the ownership of frames and slots is a
sequence of these transfers, and each of them keeps a sound view sound.
-/

namespace DemandPaging

namespace SlotsFit

variable {slots : SwapSlot → Option PageContent} {slotOf : PageId → Option SwapSlot} {p : PageId} {slot : SwapSlot}

/-- The page at `p` goes into a free slot. -/
theorem fill (h : SlotsFit slots slotOf) (hp : slotOf p = none) (hfree : slots slot = none) (content : PageContent) :
    SlotsFit (Function.update slots slot (some content)) (Function.update slotOf p (some slot)) := by
  have hnone (q : PageId) : slotOf q ≠ some slot := fun hq => by
    have hused := h.used.2 ⟨q, hq⟩
    rw [hfree] at hused
    cases hused
  constructor
  · intro other
    by_cases hother : other = slot
    · subst hother
      simp only [Function.update_self, Option.isSome_some, true_iff]
      exact ⟨p, Function.update_self ..⟩
    · rw [Function.update_of_ne hother, h.used]
      constructor
      · rintro ⟨q, hq⟩
        refine ⟨q, ?_⟩
        rw [Function.update_of_ne (fun e => by rw [e, hp] at hq; cases hq), hq]
      · rintro ⟨q, hq⟩
        refine ⟨q, ?_⟩
        by_cases hqp : q = p
        · subst hqp
          rw [Function.update_self, Option.some.injEq] at hq
          exact absurd hq.symm hother
        · rwa [Function.update_of_ne hqp] at hq
  · intro q r other hq hr
    by_cases hqp : q = p <;> by_cases hrp : r = p
    · rw [hqp, hrp]
    · rw [hqp, Function.update_self, Option.some.injEq] at hq
      rw [Function.update_of_ne hrp, ← hq] at hr
      exact absurd hr (hnone r)
    · rw [hrp, Function.update_self, Option.some.injEq] at hr
      rw [Function.update_of_ne hqp, ← hr] at hq
      exact absurd hq (hnone q)
    · rw [Function.update_of_ne hqp] at hq
      rw [Function.update_of_ne hrp] at hr
      exact h.unique hq hr

/-- The page at `p` leaves its slot, which is free then. -/
theorem empty (h : SlotsFit slots slotOf) (hp : slotOf p = some slot) :
    SlotsFit (Function.update slots slot none) (Function.update slotOf p none) := by
  constructor
  · intro other
    by_cases hother : other = slot
    · subst hother
      simp only [Function.update_self, Option.isSome_none, Bool.false_eq_true, false_iff, not_exists]
      intro q hq
      by_cases hqp : q = p
      · rw [hqp, Function.update_self] at hq
        cases hq
      · rw [Function.update_of_ne hqp] at hq
        exact hqp (h.unique hq hp)
    · rw [Function.update_of_ne hother, h.used]
      constructor
      · rintro ⟨q, hq⟩
        refine ⟨q, ?_⟩
        rw [Function.update_of_ne (fun e => ?_), hq]
        rw [e, hp, Option.some.injEq] at hq
        exact hother hq.symm
      · rintro ⟨q, hq⟩
        refine ⟨q, ?_⟩
        by_cases hqp : q = p
        · rw [hqp, Function.update_self] at hq
          cases hq
        · rwa [Function.update_of_ne hqp] at hq
  · intro q r other hq hr
    have hne (q : PageId) (hq : Function.update slotOf p none q = some other) : slotOf q = some other := by
      by_cases hqp : q = p
      · rw [hqp, Function.update_self] at hq
        cases hq
      · rwa [Function.update_of_ne hqp] at hq
    exact h.unique (hne q hq) (hne r hr)

/-- The page at `p` is in no slot, before and after. -/
theorem keep (h : SlotsFit slots slotOf) (hp : slotOf p = none) :
    SlotsFit slots (Function.update slotOf p none) := by
  rwa [← hp, Function.update_eq_self]

end SlotsFit

namespace View

variable {v : View}

theorem slotOf_setPage (v : View) (p : PageId) (page : Option PageEntry) :
    (v.setPage p page).slotOf = Function.update v.slotOf p (page.bind fun page => page.kind.slot?) := by
  funext q
  simp only [slotOf, setPage, Function.update_apply]
  split <;> rfl

/-- The page at `p` leaves its frame, which is in hand then, and becomes `page`. -/
def vacate (v : View) (p : PageId) (pa : PhysAddr) (page : Option PageEntry) : View :=
  (((v.setEntry p none).setOccupant pa none).setPage p page).hold pa

/-- The frame in hand becomes that of the page at `p`, which becomes `page`. -/
def lodge (v : View) (p : PageId) (pa : PhysAddr) (page : PageEntry) (e : PageTableEntry) : View :=
  (((v.setEntry p (some e)).setPage p (some page)).setOccupant pa (some (page.occupant p))).letGo

theorem Sound.vacate (h : v.Sound) {p : PageId} {page : PageEntry} {pa : PhysAddr} (hpage : v.pages p = some page)
    (hframe : page.frame = some pa) (hheld : v.held = none) {page' : Option PageEntry}
    (hpage' : ∀ q, page' = some q → q.frame = none ∧ q.Fits p.va) {slots : SwapSlot → Option PageContent}
    (hslots : SlotsFit slots (Function.update v.slotOf p (page'.bind fun page => page.kind.slot?))) :
    ({ v.vacate p pa page' with slots := slots } : View).Sound := by
  have hlive := (h.page hpage).1
  have hresident := h.resident_of_frame hpage hframe
  constructor
  case page =>
    have hother := @h.page
    simp only [View.vacate, setEntry, setOccupant, setPage, hold, Function.update_apply]
    grind
  case region => exact h.region
  case fresh => exact h.fresh
  case resident =>
    have hother := @h.resident
    have hid := page.occupant_id p
    simp only [View.vacate, setEntry, setOccupant, setPage, hold, Function.update_apply]
    grind
  case entry =>
    intro q
    have hother := h.entry q
    have hnone : page'.bind PageEntry.lead = none := PageEntry.bind_lead_eq_none fun q hq => (hpage' q hq).1
    simp only [View.vacate, setEntry, setOccupant, setPage, hold, Function.update_apply]
    grind
  case mappable =>
    have hother := @h.mappable
    simp only [View.vacate, setEntry, setOccupant, setPage, hold, Function.update_apply]
    grind
  case owner =>
    have hother := h.owner
    simp only [View.vacate, setEntry, setOccupant, setPage, hold, Function.update_apply]
    grind
  case slots =>
    have hslotOf : ({ v.vacate p pa page' with slots := slots } : View).slotOf = (v.setPage p page').slotOf := rfl
    rw [hslotOf, slotOf_setPage]
    exact hslots

theorem Sound.lodge (h : v.Sound) {p : PageId} {pa : PhysAddr} (hheld : v.held = some pa) (hlive : v.live p.space)
    (hmap : ¬ v.refuses p)
    (hpage : ∀ page, v.pages p = some page → page.frame = none) {page' : PageEntry} {e : PageTableEntry}
    (hfits : page'.Fits p.va) (hframe : page'.frame = some pa)
    (hlead : e.lead = (pa, .ofPermission (.userPage page'.writable))) {slots : SwapSlot → Option PageContent}
    (hslots : SlotsFit slots (Function.update v.slotOf p page'.kind.slot?)) :
    ({ v.lodge p pa page' e with slots := slots } : View).Sound := by
  obtain ⟨_, hfree⟩ := h.isSome_frame_of_held hheld
  constructor
  case page =>
    have hother := @h.page
    simp only [View.lodge, setEntry, setOccupant, setPage, letGo, Function.update_apply]
    grind
  case region => exact h.region
  case fresh => exact h.fresh
  case resident =>
    have hother := @h.resident
    have hid := page'.occupant_id p
    have hwritable : (page'.occupant p).writable = page'.writable := rfl
    have hsame := fun o : Occupant => @Occupant.eq_occupant o page' p
    simp only [View.lodge, setEntry, setOccupant, setPage, letGo, Function.update_apply]
    grind
  case entry =>
    intro q
    have hother := h.entry q
    have hsome : page'.lead = some (pa, .ofPermission (.userPage page'.writable)) := by
      rw [PageEntry.lead, hframe, Option.map_some]
    simp only [View.lodge, setEntry, setOccupant, setPage, letGo, Function.update_apply]
    grind
  case mappable =>
    have hother := @h.mappable
    simp only [View.lodge, setEntry, setOccupant, setPage, letGo, Function.update_apply]
    grind
  case owner =>
    have hother := h.owner
    simp only [View.lodge, setEntry, setOccupant, setPage, letGo, Function.update_apply]
    grind
  case slots =>
    have hslotOf : ({ v.lodge p pa page' e with slots := slots } : View).slotOf = (v.setPage p (some page')).slotOf :=
      rfl
    rw [hslotOf, slotOf_setPage]
    exact hslots

/-- A page without a frame appears, changes or goes away. -/
theorem Sound.setPage (h : v.Sound) {p : PageId} (hlive : v.live p.space)
    (hpage : ∀ page, v.pages p = some page → page.frame = none) {page' : Option PageEntry}
    (hpage' : ∀ q, page' = some q → q.frame = none ∧ q.Fits p.va) {slots : SwapSlot → Option PageContent}
    (hslots : SlotsFit slots (Function.update v.slotOf p (page'.bind fun page => page.kind.slot?))) :
    ({ v.setPage p page' with slots := slots } : View).Sound := by
  have hentry := h.entry_eq_none hpage
  constructor
  case page =>
    have hother := @h.page
    simp only [View.setPage, Function.update_apply]
    grind
  case region => exact h.region
  case fresh => exact h.fresh
  case resident =>
    have hother := @h.resident
    simp only [View.setPage, Function.update_apply]
    grind
  case entry =>
    intro q
    have hother := h.entry q
    have hnone : page'.bind PageEntry.lead = none := PageEntry.bind_lead_eq_none fun q hq => (hpage' q hq).1
    simp only [View.setPage, Function.update_apply]
    grind
  case mappable => exact h.mappable
  case owner => exact h.owner
  case slots =>
    have hslotOf : ({ v.setPage p page' with slots := slots } : View).slotOf = (v.setPage p page').slotOf := rfl
    rw [hslotOf, slotOf_setPage]
    exact hslots

/-- A free frame is taken in hand. -/
theorem Sound.take (h : v.Sound) {pa : PhysAddr} (hheld : v.held = none) (hfree : v.frames pa = none)
    (content : PageContent) : ((v.setFrame pa (some content)).hold pa).Sound := by
  refine ⟨h.page, h.region, h.fresh, h.resident, h.entry, h.mappable, fun pa' => ?_, h.slots⟩
  have howner := h.owner pa'
  simp only [setFrame, hold, Function.update_apply]
  grind

/-- The frame in hand becomes free. -/
theorem Sound.giveUp (h : v.Sound) {pa : PhysAddr} (hheld : v.held = some pa) :
    ((v.setFrame pa none).letGo).Sound := by
  refine ⟨h.page, h.region, h.fresh, h.resident, h.entry, h.mappable, fun pa' => ?_, h.slots⟩
  have howner := h.owner pa'
  have hle := Bool.toNat_le (v.frames pa').isSome
  simp only [setFrame, letGo, Function.update_apply]
  grind

/-- A frame in use gets other bytes. -/
theorem Sound.setFrame (h : v.Sound) {pa : PhysAddr} (hpa : (v.frames pa).isSome) (content : PageContent) :
    (v.setFrame pa (some content)).Sound := by
  refine ⟨h.page, h.region, h.fresh, h.resident, h.entry, h.mappable, fun pa' => ?_, h.slots⟩
  have howner := h.owner pa'
  simp only [View.setFrame, Function.update_apply]
  grind

/-- The accessed and dirty bits of an entry change. -/
theorem Sound.mark (h : v.Sound) {p : PageId} {e e' : PageTableEntry} (hentry : v.entries p = some e)
    (hlead : e'.lead = e.lead) : (v.setEntry p (some e')).Sound := by
  refine ⟨h.page, h.region, h.fresh, h.resident, fun q => ?_, fun {q} hq => ?_, h.owner, h.slots⟩
  · have hother := h.entry q
    simp only [setEntry, Function.update_apply]
    grind
  · have hother := h.mappable hq
    simp only [setEntry, Function.update_apply]
    grind

theorem Sound.setFile (h : v.Sound) (f : FileId) (file : File) : (v.setFile f file).Sound :=
  ⟨h.page, h.region, h.fresh, h.resident, h.entry, h.mappable, h.owner, h.slots⟩

theorem Sound.setRegions (h : v.Sound) {regions : PageId → Option Region}
    (hregions : ∀ p r, regions p = some r → v.live p.space) : ({ v with regions := regions } : View).Sound :=
  ⟨h.page, @hregions, h.fresh, h.resident, h.entry, h.mappable, h.owner, h.slots⟩

theorem Sound.setRegion (h : v.Sound) {p : PageId} {r : Option Region} (hr : ∀ r', r = some r' → v.live p.space) :
    (v.setRegion p r).Sound := by
  refine h.setRegions fun q r' hq => ?_
  rw [Function.update_apply] at hq
  split at hq
  next hqp => exact hqp ▸ hr r' hq
  next => exact h.region hq

/-- The frame in hand is lent. -/
theorem Sound.lend (h : v.Sound) {pa : PhysAddr} (hheld : v.held = some pa) :
    ({ v with lent := v.lent.push (some pa), held := none } : View).Sound := by
  refine ⟨h.page, h.region, h.fresh, h.resident, h.entry, h.mappable, fun pa' => ?_, h.slots⟩
  have howner := h.owner pa'
  simp only [Array.count_push]
  grind

/-- A loan ends; the frame lent is in hand again. -/
theorem Sound.takeBack (h : v.Sound) {pa : PhysAddr} (hheld : v.held = none) {n : Nat}
    (hlent : v.lent[n]? = some (some pa)) :
    ({ v with lent := v.lent.setIfInBounds n none, held := some pa } : View).Sound := by
  refine ⟨h.page, h.region, h.fresh, h.resident, h.entry, h.mappable, fun pa' => ?_, h.slots⟩
  have howner := h.owner pa'
  obtain ⟨hn, hget⟩ := Array.getElem?_eq_some_iff.1 hlent
  have hcount : (v.lent.setIfInBounds n none).count (some pa') =
      v.lent.count (some pa') - if some pa = some pa' then 1 else 0 := by
    rw [Array.setIfInBounds, dif_pos hn, Array.count_set hn, hget]
    simp
  have hpos : 0 < v.lent.count (some pa) := Array.count_pos_iff.2 (hget ▸ Array.getElem_mem hn)
  simp only [hcount]
  grind

/-- An address space that there is not has no entries. -/
theorem Sound.entry_eq_none_of_not_live (h : v.Sound) {p : PageId} (hlive : ¬ v.live p.space) : v.entries p = none :=
  h.entry_eq_none fun _ hpage => absurd (h.page hpage).1 hlive

/-- A new address space gets the next number, and a page table that may refuse to map some addresses. -/
theorem Sound.create (h : v.Sound) (refused : VirtAddr → Prop) :
    ({ v with
      live := fun id => id = v.next ∨ v.live id
      next := v.next + 1
      refuses := fun p => if p.space = v.next then refused p.va else v.refuses p } : View).Sound := by
  refine ⟨fun hpage => ⟨.inr (h.page hpage).1, (h.page hpage).2⟩, fun hr => .inr (h.region hr), fun hid => ?_,
    h.resident, h.entry, fun {p} hp => ?_, h.owner, h.slots⟩
  · rcases hid with rfl | hid
    · exact Nat.lt_succ_self _
    · exact Nat.lt_succ_of_lt (h.fresh hid)
  · by_cases hspace : p.space = v.next
    · exact h.entry_eq_none_of_not_live fun hlive => Nat.lt_irrefl _ (h.fresh (hspace ▸ hlive))
    · exact h.mappable (show v.refuses p by simpa only [if_neg hspace] using hp)

/-- An address space without pages ends. -/
theorem Sound.remove (h : v.Sound) {id : SpaceId} (hpages : ∀ va, v.pages ⟨id, va⟩ = none)
    {regions : PageId → Option Region} (hregions : ∀ p r, regions p = some r → p.space ≠ id ∧ v.live p.space) :
    ({ v with
      live := fun id' => id' ≠ id ∧ v.live id'
      regions := regions
      refuses := fun p => p.space ≠ id ∧ v.refuses p } : View).Sound := by
  refine ⟨fun {p page} hpage => ⟨⟨?_, (h.page hpage).1⟩, (h.page hpage).2⟩, fun hr => hregions _ _ hr,
    fun hid => h.fresh hid.2, h.resident, h.entry, fun hp => h.mappable hp.2, h.owner, h.slots⟩
  rintro rfl
  change v.pages p = some page at hpage
  rw [show p = ⟨p.space, p.va⟩ from rfl, hpages] at hpage
  cases hpage

/-- Numbers that no address space has can be given out again. -/
theorem Sound.setNext (h : v.Sound) {next : SpaceId} (hnext : ∀ id, v.live id → id < next) :
    ({ v with next := next } : View).Sound :=
  ⟨h.page, h.region, hnext _, h.resident, h.entry, h.mappable, h.owner, h.slots⟩

end View

end DemandPaging
