import Mathlib.Logic.Function.Basic
import Mathlib.Algebra.Order.Group.Nat
import DemandPaging.Swap
import DemandPaging.Proofs.Content
import DemandPaging.Proofs.IndexPool
import DemandPaging.Proofs.Loop

/-!
The slots of a swap device as independent stores of pages. Reading changes no slot, writing changes the slot
written to and no other, and a request that fails half-way changes no other slot either.
-/

namespace DemandPaging

namespace Disk

/-- A read changes no sector. -/
theorem read_sectors (s : Nat) (d : Disk) :
    match read s d with
    | .ok content d' => content = d.sector s ∧ d'.sectors = d.sectors
    | .error _ d' => d'.sectors = d.sectors := by
  by_cases hs : d.sectorCount ≤ s
  · simp [read, get_apply, bind, EStateM.bind, throw_apply, hs]
  · rcases hfate : d.faults.onRead s with ⟨fate, faults⟩
    cases fate <;>
      simp [read, get_apply, bind, EStateM.bind, throw_apply, set_apply, pure_apply, hs, hfate]

/-- A write changes the sector written to, or nothing. -/
theorem write_sectors (s : Nat) (content : SectorContent) (d : Disk) :
    match write s content d with
    | .ok _ d' => s < d.sectorCount ∧ d'.sectors = d.sectors.setIfInBounds s content
    | .error _ d' => d'.sectors = d.sectors := by
  by_cases hs : d.sectorCount ≤ s
  · simp [write, get_apply, bind, EStateM.bind, throw_apply, hs]
  · rcases hfate : d.faults.onWrite s with ⟨fate, faults⟩
    cases fate <;>
      simp [write, get_apply, bind, EStateM.bind, throw_apply, set_apply, hs, hfate, Nat.not_le.1 hs]

theorem sector_congr {d d' : Disk} (h : d'.sectors = d.sectors) (n : Nat) : d'.sector n = d.sector n := by
  simp [sector, h]

theorem sectorCount_congr {d d' : Disk} (h : d'.sectors = d.sectors) : d'.sectorCount = d.sectorCount := by
  simp [sectorCount, h]

theorem sector_of_set {d d' : Disk} {s : Nat} {content : SectorContent} (hs : s < d.sectorCount)
    (h : d'.sectors = d.sectors.setIfInBounds s content) (n : Nat) :
    d'.sector n = if n = s then content else d.sector n := by
  have hs' : s < d.sectors.size := hs
  by_cases hn : n = s
  · subst hn
    simp [sector, h, hs']
  · simp [sector, h, hn, Ne.symm hn]

end Disk

namespace SwapDevice

/-- The two tables record the same slots as taken, over disks of the same size. -/
structure SameShape (t t' : SwapDevice) : Prop where
  slots : t'.slots = t.slots
  size : t'.disk.map Disk.sectorCount = t.disk.map Disk.sectorCount

/-- What every slot holds, that of `slot` apart, is the same. -/
structure SameOutside (slot : SwapSlot) (t t' : SwapDevice) : Prop extends SameShape t t' where
  content : ∀ s, s ≠ slot → t'.content s = t.content s

/-- What every slot holds is the same. -/
structure SameData (t t' : SwapDevice) : Prop extends SameShape t t' where
  content : ∀ s, t'.content s = t.content s

/-- A slot lies within the disk as far as the table counts slots. -/
structure WellFormed (t : SwapDevice) : Prop where
  slots : t.slots.WellFormed
  size : t.capacity * sectorsPerPage ≤ (t.disk.map Disk.sectorCount).getD 0

theorem SameShape.wellFormed {t t' : SwapDevice} (h : SameShape t t') (ht : t.WellFormed) : t'.WellFormed := by
  refine ⟨by rw [h.slots]; exact ht.slots, ?_⟩
  rw [h.size, capacity, h.slots]
  exact ht.size

theorem wellFormed_new (disk : Option Disk) : (new disk).WellFormed where
  slots := IndexPool.wellFormed_new _
  size := Nat.div_mul_le_self ..

/-- A device that has no slot to give is full. -/
theorem WellFormed.inUse_eq_capacity {t : SwapDevice} (h : t.WellFormed) (halloc : t.alloc? = none) :
    t.inUse = t.capacity := by
  have hmembers := h.slots.of_take?_eq_none (Option.map_eq_none_iff.1 halloc)
  rw [inUse, h.slots.taken, hmembers, Finset.card_range]
  rfl

/-- There are no slots without a disk. -/
theorem WellFormed.capacity_eq_zero {t : SwapDevice} (h : t.WellFormed) (hdisk : t.disk = none) : t.capacity = 0 := by
  have hsize := h.size
  have hsectors : sectorsPerPage = 8 := rfl
  simp only [hdisk, Option.map_none, Option.getD_none, hsectors] at hsize
  omega

theorem content_eq {t : SwapDevice} {d : Disk} (h : t.disk = some d) (s : SwapSlot) :
    t.content s = Content.ofBytes pageSize
      ((List.range sectorsPerPage).flatMap fun i => (d.sector (s.sector + i)).toList) := by
  simp [content, h]

theorem content_congr {t t' : SwapDevice} {d d' : Disk} (h : t.disk = some d) (h' : t'.disk = some d')
    {s : SwapSlot} (hs : ∀ i < sectorsPerPage, d'.sector (s.sector + i) = d.sector (s.sector + i)) :
    t'.content s = t.content s := by
  rw [content_eq h, content_eq h']
  congr 1
  refine List.flatMap_congr fun i hi => ?_
  rw [hs i (List.mem_range.1 hi)]

/-- The sectors of different slots are different. -/
theorem sector_disjoint {s slot : SwapSlot} (h : s ≠ slot) {i : Nat} (hi : i < sectorsPerPage) {k : Nat}
    (hk : k ≤ sectorsPerPage) : ¬ (slot.sector ≤ s.sector + i ∧ s.sector + i < slot.sector + k) := by
  rintro ⟨hlow, hhigh⟩
  apply h
  have h8 : sectorsPerPage = 8 := rfl
  cases s with | mk a => cases slot with | mk b =>
  simp only [SwapSlot.sector, h8] at *
  rw [SwapSlot.mk.injEq]
  omega

/-- Where a loop over the sectors of a slot has come, it has not been yet in any other slot. -/
theorem sector_not_before (s slot : SwapSlot) {i : Nat} (hi : i < sectorsPerPage) :
    ¬ (slot.sector ≤ s.sector + i ∧ s.sector + i < slot.sector + i) := by
  by_cases h : s = slot
  · rw [h]
    omega
  · exact sector_disjoint h hi hi.le

theorem sectorOf_toList (content : PageContent) {i : Nat} (hi : i < sectorsPerPage) :
    (sectorOf content i).toList = (content.toList.drop (i * sectorSize)).take sectorSize := by
  apply Content.toList_ofBytes_of_le
  have hle : (i + 1) * sectorSize ≤ sectorsPerPage * sectorSize := Nat.mul_le_mul_right _ hi
  have hpage : sectorsPerPage * sectorSize = pageSize := rfl
  rw [List.length_drop, Vector.length_toList, ← hpage]
  rw [Nat.succ_mul] at hle
  omega

/-- The sectors into which a page is cut make up the page. -/
theorem ofBytes_flatMap_sectorOf (content : PageContent) :
    Content.ofBytes pageSize ((List.range sectorsPerPage).flatMap fun i => (sectorOf content i).toList) = content := by
  have hpage : sectorsPerPage * sectorSize = pageSize := rfl
  rw [List.flatMap_congr fun i hi => sectorOf_toList content (List.mem_range.1 hi), Content.flatMap_chunks,
    List.take_of_length_le (by rw [Vector.length_toList, hpage]), Content.ofBytes_toList]

/-- A loop that fills the sectors of a slot one after the other leaves the other slots alone. If it succeeds, the
slot holds the bytes of all sectors. -/
theorem onDisk_fill (slot : SwapSlot) (value : Nat → SectorContent) (round : Nat → EStateM Errno Disk PUnit)
    (t : SwapDevice)
    (hround : ∀ d d', t.disk = some d → ∀ i < sectorsPerPage,
      (∀ n, ¬ (slot.sector ≤ n ∧ n < slot.sector + i) → d'.sector n = d.sector n) →
      match round i d' with
      | .ok _ d'' => slot.sector + i < d'.sectorCount ∧
          d''.sectors = d'.sectors.setIfInBounds (slot.sector + i) (value i)
      | .error _ d'' => d''.sectors = d'.sectors) :
    match onDisk ((List.range sectorsPerPage).forM round) t with
    | .ok _ t' => SameOutside slot t t' ∧
        t'.content slot = Content.ofBytes pageSize ((List.range sectorsPerPage).flatMap fun i => (value i).toList)
    | .error _ t' => SameOutside slot t t' := by
  cases hdisk : t.disk with
  | none => simpa [onDisk, hdisk] using (⟨⟨rfl, rfl⟩, fun _ _ => rfl⟩ : SameOutside slot t t)
  | some d =>
    let filled (k : Nat) (d' : Disk) : Prop := d'.sectorCount = d.sectorCount ∧
      ∀ n, d'.sector n = if slot.sector ≤ n ∧ n < slot.sector + k then value (n - slot.sector) else d.sector n
    have hother (k : Nat) (hk : k ≤ sectorsPerPage) (d' : Disk) (h : filled k d') :
        SameOutside slot t { t with disk := some d' } := by
      refine ⟨⟨rfl, by simp [hdisk, h.1]⟩, fun s hs => content_congr hdisk rfl fun i hi => ?_⟩
      rw [h.2, if_neg (sector_disjoint hs hi hk)]
    have hloop := forM_invariant (f := round) (E := fun _ d' => ∃ k ≤ sectorsPerPage, filled k d')
      (List.range sectorsPerPage) filled (s := d)
      (fun k hk d' h => by
        have hk' : k < sectorsPerPage := by simpa using hk
        have hstep := hround d d' hdisk k hk' fun n hn => by rw [h.2, if_neg hn]
        simp only [List.getElem_range]
        cases hresult : round k d' with
        | error e d'' =>
          simp only [hresult] at hstep
          exact ⟨k, by omega, (Disk.sectorCount_congr hstep).trans h.1, fun n => by
            rw [Disk.sector_congr hstep, h.2]⟩
        | ok u d'' =>
          simp only [hresult] at hstep
          obtain ⟨hbound, hsectors⟩ := hstep
          refine ⟨by simpa [Disk.sectorCount, hsectors] using h.1, fun n => ?_⟩
          rw [Disk.sector_of_set hbound hsectors, h.2]
          by_cases hn : n = slot.sector + k
          · subst hn
            simp
          · rw [if_neg hn]
            congr 1
            simp only [eq_iff_iff]
            omega)
      ⟨rfl, fun n => by rw [if_neg (by omega)]⟩
    simp only [onDisk, hdisk]
    cases hresult : (List.range sectorsPerPage).forM round d with
    | error e d' =>
      simp only [hresult] at hloop
      obtain ⟨k, hk, h⟩ := hloop
      exact hother k hk d' h
    | ok u d' =>
      simp only [hresult, List.length_range] at hloop
      refine ⟨hother _ le_rfl d' hloop, ?_⟩
      rw [content_eq (d := d') rfl]
      congr 1
      refine List.flatMap_congr fun i hi => ?_
      have hi' := List.mem_range.1 hi
      rw [hloop.2, if_pos ⟨by omega, by omega⟩, Nat.add_sub_cancel_left]

/-- A write leaves the other slots alone, and if it succeeds the slot holds what was written. -/
theorem write_spec (slot : SwapSlot) (content : PageContent) (t : SwapDevice) :
    match write slot content t with
    | .ok _ t' => SameOutside slot t t' ∧ t'.content slot = content
    | .error _ t' => SameOutside slot t t' := by
  have hfill := onDisk_fill slot (sectorOf content) (fun i => Disk.write (slot.sector + i) (sectorOf content i)) t
    fun _ d' _ i _ _ => Disk.write_sectors (slot.sector + i) (sectorOf content i) d'
  rwa [ofBytes_flatMap_sectorOf] at hfill

theorem readSectors_spec (ss : List Nat) (d : Disk) :
    (readSectors ss d).2.sectors = d.sectors ∧
      ((readSectors ss d).1.failure = none → (readSectors ss d).1.bytes = ss.flatMap fun s => (d.sector s).toList) := by
  induction ss generalizing d with
  | nil => exact ⟨rfl, fun _ => rfl⟩
  | cons s ss ih =>
    have hread := Disk.read_sectors s d
    cases hresult : Disk.read s d with
    | error e d' =>
      simp only [hresult] at hread
      simp [readSectors, hresult, hread, Transfer.stopped]
    | ok content d' =>
      simp only [hresult] at hread
      obtain ⟨rfl, hsectors⟩ := hread
      obtain ⟨hrest, hbytes⟩ := ih d'
      simp only [readSectors, hresult, Transfer.after]
      refine ⟨hrest.trans hsectors, fun hnone => ?_⟩
      rw [hbytes hnone, List.flatMap_cons, List.flatMap_congr fun n _ => by rw [Disk.sector_congr hsectors n]]

/-- A read changes no slot, and if it succeeds it yields what the slot holds. -/
theorem read_spec (slot : SwapSlot) (t : SwapDevice) :
    SameData t (read slot t).2 ∧
      ((read slot t).1.failure = none → (read slot t).1.bytes = (t.content slot).toList) := by
  cases hdisk : t.disk with
  | none => simpa [read, hdisk, Transfer.stopped] using (⟨⟨rfl, rfl⟩, fun _ => rfl⟩ : SameData t t)
  | some d =>
    obtain ⟨hsectors, hbytes⟩ := readSectors_spec ((List.range sectorsPerPage).map (slot.sector + ·)) d
    simp only [read, hdisk]
    refine ⟨⟨⟨rfl, by simp [hdisk, Disk.sectorCount_congr hsectors]⟩, fun s => ?_⟩, fun hnone => ?_⟩
    · exact content_congr hdisk rfl fun i _ => Disk.sector_congr hsectors _
    · rw [hbytes hnone, content_eq hdisk, Content.toList_ofBytes_of_length, List.flatMap_map]
      have hlength : ∀ i, (d.sector (slot.sector + i)).toList.length = sectorSize := fun i => Vector.length_toList
      simp only [List.length_flatMap, hlength, List.map_const', List.length_range, List.sum_replicate_nat]
      rfl

/-- Taking a slot hands out one that was free. -/
theorem WellFormed.of_alloc? {t t' : SwapDevice} {slot : SwapSlot} (h : t.WellFormed)
    (halloc : t.alloc? = some (slot, t')) :
    t'.WellFormed ∧ t'.disk = t.disk ∧ t'.capacity = t.capacity ∧ slot.index ∉ t.slots.members ∧
      t'.slots.members = insert slot.index t.slots.members ∧ t'.slots.giveBack? slot.index = some t.slots := by
  obtain ⟨⟨i, slots⟩, htake, hresult⟩ := Option.map_eq_some_iff.1 halloc
  rw [Prod.mk.injEq] at hresult
  obtain ⟨rfl, rfl⟩ := hresult
  obtain ⟨hslots, hcapacity, _, hnot, hmembers, _⟩ := h.slots.of_take? htake
  refine ⟨⟨hslots, ?_⟩, rfl, hcapacity, hnot, hmembers, h.slots.giveBack?_take? htake⟩
  simpa [capacity, hcapacity] using h.size

theorem content_of_disk {t t' : SwapDevice} (h : t'.disk = t.disk) (s : SwapSlot) : t'.content s = t.content s := by
  simp [content, h]

/-- A slot that holds a page can be given back, which touches no data. -/
theorem WellFormed.free {t : SwapDevice} {slot : SwapSlot} (h : t.WellFormed) (hslot : slot.index ∈ t.slots.members) :
    ∃ t', t.free slot = .ok t' ∧ t'.WellFormed ∧ t'.disk = t.disk ∧ t'.capacity = t.capacity ∧
      t'.slots.members = t.slots.members.erase slot.index := by
  obtain ⟨slots, hback, hslots, hcapacity, hmembers, _⟩ := h.slots.giveBack? hslot
  refine ⟨{ t with slots := slots }, by simp [SwapDevice.free, hback], ⟨hslots, ?_⟩, rfl, hcapacity, hmembers⟩
  simpa [capacity, hcapacity] using h.size

theorem free_of_notMem {t : SwapDevice} {slot : SwapSlot} (hslot : slot.index ∉ t.slots.members) :
    t.free slot = .error (.doubleFree slot.index) := by
  have hcontains : t.slots.contains slot.index = false := by simpa using hslot
  simp [SwapDevice.free, IndexPool.giveBack?, hcontains]

/-- A copy leaves all slots but its target alone, and if it succeeds the target holds what the source holds. -/
theorem copy_spec (source target : SwapSlot) (t : SwapDevice) :
    match copy source target t with
    | .ok _ t' => SameOutside target t t' ∧ t'.content target = t.content source
    | .error _ t' => SameOutside target t t' := by
  cases hdisk : t.disk with
  | none => simpa [copy, onDisk, hdisk] using (⟨⟨rfl, rfl⟩, fun _ _ => rfl⟩ : SameOutside target t t)
  | some d =>
    have hfill := onDisk_fill target (fun i => d.sector (source.sector + i))
      (fun i => do
        let content ← Disk.read (source.sector + i)
        Disk.write (target.sector + i) content) t
      fun d₀ d' hd₀ i hi hsame => by
        obtain rfl : d₀ = d := by rw [hdisk] at hd₀; exact (Option.some.inj hd₀).symm
        have hread := Disk.read_sectors (source.sector + i) d'
        simp only [bind, EStateM.bind]
        cases hresult : Disk.read (source.sector + i) d' with
        | error e d'' => simpa only [hresult] using hread
        | ok content d₁ =>
          simp only [hresult] at hread
          obtain ⟨rfl, hread⟩ := hread
          rw [hsame _ (sector_not_before source target hi)]
          have hwrite := Disk.write_sectors (target.sector + i) (d₀.sector (source.sector + i)) d₁
          rwa [hread, Disk.sectorCount_congr hread] at hwrite
    rwa [← content_eq hdisk] at hfill

/-- A copy takes a free slot, and if it fails the slot is given back. Only that slot may hold something else. -/
theorem WellFormed.duplicate_cases {t : SwapDevice} (h : t.WellFormed) (s : SwapSlot) :
    (t.alloc? = none ∧ SwapDevice.duplicate s t = .error .noSpace t) ∨
      ∃ target t₁, t.alloc? = some (target, t₁) ∧
        match SwapDevice.duplicate s t with
        | .ok found t' => found = target ∧ t'.WellFormed ∧ t'.slots = t₁.slots ∧
            t'.content = Function.update t.content target (t.content s)
        | .error _ t' => t'.WellFormed ∧ t'.slots = t.slots ∧
            t'.content = Function.update t.content target (t'.content target) := by
  unfold SwapDevice.duplicate
  cases halloc : t.alloc? with
  | none => exact .inl ⟨rfl, rfl⟩
  | some found =>
    obtain ⟨target, t₁⟩ := found
    obtain ⟨h₁, hdisk, -, -, -, hback⟩ := h.of_alloc? halloc
    refine .inr ⟨target, t₁, rfl, ?_⟩
    have hcopy := copy_spec s target t₁
    cases hresult : copy s target t₁ with
    | ok u t' =>
      simp only [hresult] at hcopy ⊢
      obtain ⟨hsame, hcontent⟩ := hcopy
      refine ⟨trivial, hsame.wellFormed h₁, hsame.slots, funext fun s' => ?_⟩
      by_cases hs' : s' = target
      · rw [hs', Function.update_self, hcontent, content_of_disk hdisk]
      · rw [Function.update_of_ne hs', hsame.content s' hs', content_of_disk hdisk]
    | error e t' =>
      simp only [hresult] at hcopy ⊢
      rw [hcopy.slots, hback, Option.getD_some]
      have hsize := h.size
      rw [← hdisk, ← hcopy.size] at hsize
      refine ⟨⟨h.slots, hsize⟩, rfl, funext fun s' => ?_⟩
      by_cases hs' : s' = target
      · rw [hs', Function.update_self]
      · rw [Function.update_of_ne hs']
        exact (hcopy.content s' hs').trans (content_of_disk hdisk s')

/-- A slot that is taken for a copy was free, and only that one is taken. If the copy fails, no slot is. -/
theorem WellFormed.duplicate {t : SwapDevice} (h : t.WellFormed) (slot : SwapSlot) :
    match duplicate slot t with
    | .ok target t' => t'.WellFormed ∧ target.index ∉ t.slots.members ∧
        t'.slots.members = insert target.index t.slots.members ∧ t'.content target = t.content slot ∧
        ∀ s, s ≠ target → t'.content s = t.content s
    | .error _ t' => t'.WellFormed ∧ t'.slots = t.slots ∧
        ∀ s, s.index ∈ t.slots.members → t'.content s = t.content s := by
  obtain ⟨-, hfull⟩ | ⟨target, t₁, halloc, hcases⟩ := h.duplicate_cases slot
  · rw [hfull]
    exact ⟨h, rfl, fun _ _ => rfl⟩
  · obtain ⟨-, -, -, hfree, hmembers, -⟩ := h.of_alloc? halloc
    cases hresult : SwapDevice.duplicate slot t with
    | ok found t' =>
      simp only [hresult] at hcases ⊢
      obtain ⟨rfl, ht', hslots, hcontent⟩ := hcases
      refine ⟨ht', hfree, by rw [hslots, hmembers], ?_, fun s hs => ?_⟩
      · rw [hcontent, Function.update_self]
      · rw [hcontent, Function.update_of_ne hs]
    | error e t' =>
      simp only [hresult] at hcases ⊢
      obtain ⟨ht', hslots, hcontent⟩ := hcases
      refine ⟨ht', hslots, fun s hs => ?_⟩
      have hne : s ≠ target := fun heq => hfree (heq ▸ hs)
      rw [hcontent, Function.update_of_ne hne]

/-- The page in the slot `slot`; nothing for a slot that holds no page. -/
def page? (t : SwapDevice) (slot : SwapSlot) : Option PageContent :=
  if slot.index ∈ t.slots.members then some (t.content slot) else none

theorem page?_eq_none_iff {t : SwapDevice} {slot : SwapSlot} : t.page? slot = none ↔ slot.index ∉ t.slots.members := by
  simp [page?]

theorem mem_members_of_page? {t : SwapDevice} {slot : SwapSlot} {content : PageContent}
    (h : t.page? slot = some content) : slot.index ∈ t.slots.members ∧ t.content slot = content := by
  unfold page? at h
  split at h
  next hmem => exact ⟨hmem, Option.some.inj h⟩
  next => cases h

theorem page?_congr {t t' : SwapDevice} (hslots : t'.slots.members = t.slots.members)
    (h : ∀ slot, slot.index ∈ t.slots.members → t'.content slot = t.content slot) : t'.page? = t.page? := by
  funext slot
  simp only [page?, hslots]
  split
  next hmem => rw [h slot hmem]
  next => rfl

/-- A device on which one slot more is taken. -/
theorem page?_of_insert {t t' : SwapDevice} {slot : SwapSlot}
    (hslots : t'.slots.members = insert slot.index t.slots.members)
    (h : ∀ s, s ≠ slot → t'.content s = t.content s) :
    t'.page? = Function.update t.page? slot (some (t'.content slot)) := by
  funext s
  by_cases hs : s = slot
  · subst hs
    simp [page?, hslots]
  · have hindex : s.index ≠ slot.index := fun e => hs (by cases s; cases slot; exact congrArg SwapSlot.mk e)
    rw [Function.update_of_ne hs]
    simp only [page?, hslots, Finset.mem_insert, hindex, false_or, h s hs]

/-- Giving back a slot that holds a page forgets that page only. -/
theorem WellFormed.page?_free {t : SwapDevice} {slot : SwapSlot} (h : t.WellFormed)
    (hslot : slot.index ∈ t.slots.members) :
    ∃ t', t.free slot = .ok t' ∧ t'.WellFormed ∧ t'.page? = Function.update t.page? slot none := by
  obtain ⟨t', hfree, ht', hdisk, _, hmembers⟩ := h.free hslot
  refine ⟨t', hfree, ht', funext fun s => ?_⟩
  by_cases hs : s = slot
  · subst hs
    simp [page?, hmembers]
  · have hindex : s.index ≠ slot.index := fun e => hs (by cases s; cases slot; exact congrArg SwapSlot.mk e)
    rw [Function.update_of_ne hs]
    simp [page?, hmembers, hindex, content_of_disk hdisk]

end SwapDevice

end DemandPaging
