import DemandPaging.Proofs.Session
import DemandPaging.Proofs.Swap

/-!
The swap device seen from outside. Whatever is asked of it, one request after the other, its bitmap hands out slots like
a set from which the lowest free index is taken, and its slots keep pages like stores that know nothing of each other,
also where the disk refuses requests half-way.
-/

namespace DemandPaging

/-- A request to a swap device. -/
inductive SwapRequest where
  | alloc
  | free (s : SwapSlot)
  | isUsed (s : SwapSlot)
  | inUse
  | write (s : SwapSlot) (content : PageContent)
  | read (s : SwapSlot)
  | duplicate (s : SwapSlot)
  /-- From now on the disk fails as `faults` says. -/
  | fail (faults : Faults)

/-- The reply of a swap device to a request. -/
inductive SwapReply where
  | done
  | slot (s : SwapSlot)
  | noSlot
  | truth (b : Bool)
  | count (n : Nat)
  | transfer (t : Transfer)
  | refused (e : Errno)
  | panic (p : Panic)
  deriving DecidableEq

namespace SwapDevice

/-- How a device replies, and what becomes of it. -/
def answer (t : SwapDevice) : SwapRequest → SwapReply × SwapDevice
  | .alloc =>
    match t.alloc? with
    | some (s, t) => (.slot s, t)
    | none => (.noSlot, t)
  | .free s =>
    match t.free s with
    | .ok t => (.done, t)
    | .error p => (.panic p, t)
  | .isUsed s => (.truth (t.isUsed s), t)
  | .inUse => (.count t.inUse, t)
  | .write s content =>
    match write s content t with
    | .ok _ t => (.done, t)
    | .error e t => (.refused e, t)
  | .read s => (.transfer (read s t).1, (read s t).2)
  | .duplicate s =>
    match duplicate s t with
    | .ok target t => (.slot target, t)
    | .error e t => (.refused e, t)
  | .fail faults => (.done, { t with disk := t.disk.map fun d => { d with faults := faults } })

variable {t t' : SwapDevice} {s slot target : SwapSlot}

/-! ### The bitmap -/

/-- The slot `i` is the lowest one of `capacity` slots that is not in use. -/
def IsFirstFree (capacity : Nat) (used : Finset Nat) (i : Nat) : Prop :=
  i < capacity ∧ i ∉ used ∧ ∀ j < i, j ∈ used

/-- How a set of the indices in use, all below `capacity`, changes with the requests and what it replies to them. A
request to duplicate a slot may be refused, which changes nothing. -/
inductive FirstFit (capacity : Nat) : Finset Nat → SwapRequest → SwapReply → Finset Nat → Prop
  | alloc {used : Finset Nat} {s : SwapSlot} (h : IsFirstFree capacity used s.index) :
    FirstFit capacity used .alloc (.slot s) (insert s.index used)
  | full {used : Finset Nat} (h : used.card = capacity) : FirstFit capacity used .alloc .noSlot used
  | free {used : Finset Nat} {s : SwapSlot} (h : s.index ∈ used) :
    FirstFit capacity used (.free s) .done (used.erase s.index)
  | doubleFree {used : Finset Nat} {s : SwapSlot} (h : s.index ∉ used) :
    FirstFit capacity used (.free s) (.panic (.doubleFree s.index)) used
  | isUsed {used : Finset Nat} (s : SwapSlot) :
    FirstFit capacity used (.isUsed s) (.truth (decide (s.index ∈ used))) used
  | inUse {used : Finset Nat} : FirstFit capacity used .inUse (.count used.card) used
  | copied {used : Finset Nat} (s : SwapSlot) {target : SwapSlot} (h : IsFirstFree capacity used target.index) :
    FirstFit capacity used (.duplicate s) (.slot target) (insert target.index used)
  | notCopied {used : Finset Nat} (s : SwapSlot) (e : Errno) : FirstFit capacity used (.duplicate s) (.refused e) used
  | write {used : Finset Nat} (s : SwapSlot) (content : PageContent) (r : SwapReply) :
    FirstFit capacity used (.write s content) r used
  | read {used : Finset Nat} (s : SwapSlot) (r : SwapReply) : FirstFit capacity used (.read s) r used
  | fail {used : Finset Nat} (faults : Faults) : FirstFit capacity used (.fail faults) .done used

/-- The table records the slots in `used` as taken, and has `capacity` slots. -/
structure Records (capacity : Nat) (t : SwapDevice) (used : Finset Nat) : Prop where
  wellFormed : t.WellFormed
  capacity : t.capacity = capacity
  members : t.slots.members = used

/-- A slot is handed out exactly if one is free, and it is the first free one. -/
theorem WellFormed.alloc?_cases (h : t.WellFormed) :
    (t.alloc? = none ∧ t.slots.members.card = t.capacity) ∨
      ∃ s t', t.alloc? = some (s, t') ∧ IsFirstFree t.capacity t.slots.members s.index ∧
        Records t.capacity t' (insert s.index t.slots.members) ∧ t'.disk = t.disk := by
  cases htake : t.slots.take? with
  | none =>
    refine .inl ⟨by rw [alloc?, htake, Option.map_none], ?_⟩
    rw [h.slots.of_take?_eq_none htake, Finset.card_range, capacity]
  | some found =>
    obtain ⟨i, slots⟩ := found
    obtain ⟨-, hcapacity, hlt, hnot, hmembers, hlow⟩ := h.slots.of_take? htake
    have halloc : t.alloc? = some (⟨i⟩, { t with slots := slots }) := by rw [alloc?, htake, Option.map_some]
    exact .inr ⟨⟨i⟩, _, halloc, ⟨hlt, hnot, hlow⟩, ⟨(h.of_alloc? halloc).1, hcapacity, hmembers⟩, rfl⟩

theorem Records.of_sameShape {capacity : Nat} {used : Finset Nat} (h : Records capacity t used) (hsame : SameShape t t') :
    Records capacity t' used where
  wellFormed := hsame.wellFormed h.wellFormed
  capacity := by rw [SwapDevice.capacity, hsame.slots]; exact h.capacity
  members := by rw [hsame.slots]; exact h.members

/-- What the disk holds and which requests it refuses does not show in the bitmap. -/
theorem sameShape_fail (t : SwapDevice) (faults : Faults) :
    SameShape t { t with disk := t.disk.map fun d => { d with faults := faults } } := by
  refine ⟨rfl, ?_⟩
  cases t.disk <;> rfl

theorem Records.answer {capacity : Nat} {used : Finset Nat} (h : Records capacity t used) (r : SwapRequest) :
    ∃ used', FirstFit capacity used r (t.answer r).1 used' ∧ Records capacity (t.answer r).2 used' := by
  obtain ⟨hwf, rfl, rfl⟩ := h
  have hself : Records t.capacity t t.slots.members := ⟨hwf, rfl, rfl⟩
  cases r with
  | alloc =>
    simp only [SwapDevice.answer]
    obtain ⟨hnone, hcard⟩ | ⟨s, t', hsome, hfirst, ht', -⟩ := hwf.alloc?_cases
    · rw [hnone]
      exact ⟨_, .full hcard, hself⟩
    · rw [hsome]
      exact ⟨_, .alloc hfirst, ht'⟩
  | free s =>
    simp only [SwapDevice.answer]
    by_cases hs : s.index ∈ t.slots.members
    · obtain ⟨t', hfree, ht', -, hcapacity, hmembers⟩ := hwf.free hs
      rw [hfree]
      exact ⟨_, .free hs, ht', hcapacity, hmembers⟩
    · rw [free_of_notMem hs]
      exact ⟨_, .doubleFree hs, hself⟩
  | isUsed s =>
    have hused : t.isUsed s = decide (s.index ∈ t.slots.members) := by
      rw [SwapDevice.isUsed, Bool.eq_iff_iff, decide_eq_true_iff, IndexPool.mem_members]
    simp only [SwapDevice.answer, hused]
    exact ⟨_, .isUsed s, hself⟩
  | inUse =>
    simp only [SwapDevice.answer, SwapDevice.inUse, hwf.slots.taken]
    exact ⟨_, .inUse, hself⟩
  | write s content =>
    have hwrite := write_spec s content t
    simp only [SwapDevice.answer]
    cases hresult : write s content t with
    | ok _ t' =>
      simp only [hresult] at hwrite
      exact ⟨_, .write s content _, hself.of_sameShape hwrite.1.toSameShape⟩
    | error e t' =>
      simp only [hresult] at hwrite
      exact ⟨_, .write s content _, hself.of_sameShape hwrite.toSameShape⟩
  | read s => exact ⟨_, .read s _, hself.of_sameShape (read_spec s t).1.toSameShape⟩
  | duplicate s =>
    simp only [SwapDevice.answer]
    obtain ⟨-, hfull⟩ | ⟨target, t₁, halloc, hcases⟩ := hwf.duplicate_cases s
    · rw [hfull]
      exact ⟨_, .notCopied s _, hself⟩
    · obtain ⟨hnone, -⟩ | ⟨target', t', hsome, hfirst, ht', -⟩ := hwf.alloc?_cases
      · rw [hnone] at halloc
        cases halloc
      · obtain ⟨rfl, rfl⟩ := Prod.mk.inj (Option.some.inj (hsome.symm.trans halloc))
        cases hresult : duplicate s t with
        | ok found t₂ =>
          simp only [hresult] at hcases ⊢
          obtain ⟨rfl, ht₂, hslots, -⟩ := hcases
          refine ⟨_, .copied s hfirst, ht₂, ?_, ?_⟩
          · rw [SwapDevice.capacity, hslots]
            exact ht'.capacity
          · rw [hslots]
            exact ht'.members
        | error e t₂ =>
          simp only [hresult] at hcases ⊢
          obtain ⟨ht₂, hslots, -⟩ := hcases
          exact ⟨_, .notCopied s e, ht₂, congrArg IndexPool.capacity hslots, congrArg IndexPool.members hslots⟩
  | fail faults => exact ⟨_, .fail faults, hself.of_sameShape (sameShape_fail t faults)⟩

/-- From a new table on, over a disk of any size or none, any requests are replied to as a set of indices would reply
to them that always takes in the lowest one it does not hold. At any time the table counts the members of that set, no
bit is set beyond the last slot, and there is a word for every slot. -/
theorem replies_first_fit (disk : Option Disk) (requests : List SwapRequest) :
    let capacity := (disk.map Disk.sectorCount).getD 0 / sectorsPerPage
    let (replies, t) := session answer (new disk) requests
    ∃ used, Obeys (FirstFit capacity) ∅ requests replies used ∧ t.capacity = capacity ∧
      used ⊆ Finset.range capacity ∧ (∀ s, t.isUsed s = decide (s.index ∈ used)) ∧ t.inUse = used.card ∧
      (∀ i, t.slots.bits.contains i = true → i < capacity) ∧
      ∀ i < capacity, i / 64 < t.slots.bits.words.size := by
  have hnew : Records ((disk.map Disk.sectorCount).getD 0 / sectorsPerPage) (new disk) ∅ :=
    ⟨wellFormed_new disk, rfl, IndexPool.members_new _⟩
  obtain ⟨used, hobeys, hwf, hcapacity, hmembers⟩ := session_obeys (R := Records _)
    (fun _ _ r h => h.answer r) hnew requests
  refine ⟨used, hobeys, hcapacity, fun i hi => ?_, fun s => ?_, ?_, fun i hi => ?_, fun i hi => ?_⟩
  · rw [← hmembers] at hi
    exact Finset.mem_range.2 (hcapacity ▸ IndexPool.lt_of_mem_members hi)
  · rw [isUsed, Bool.eq_iff_iff, decide_eq_true_iff, ← hmembers, IndexPool.mem_members]
  · rw [← hmembers]
    exact hwf.slots.taken
  · exact hcapacity ▸ hwf.slots.bound i hi
  · have hroom := hwf.slots.room
    have hi' : i < _ := hcapacity ▸ hi
    rw [hroom]
    change i < IndexPool.capacity _ at hi'
    omega

end SwapDevice

end DemandPaging
