import Mathlib.Data.Multiset.MapFold
import Mathlib.Logic.Function.Basic
import DemandPaging.FramePool
import DemandPaging.Proofs.Arena

/-!
The frame pool as a set of frames in use, each with bytes of its own. Handing out a frame adds it to the set,
taking it back removes it, and neither touches the bytes of any other frame in use.
-/

namespace DemandPaging.FramePool

/-- The base is a page address, and the arena is that of the frames. -/
structure WellFormed (p : FramePool) : Prop where
  aligned : p.base.toNat % pageSize = 0
  arena : p.arena.WellFormed p.frameCount

/-- The numbers of the frames in use. -/
def members (p : FramePool) : Finset Nat := p.arena.used p.frameCount

/-- The frames in use, each once. -/
def used (p : FramePool) : Multiset PhysAddr := p.members.val.map p.frameAddr

theorem pageSize_pos : 0 < pageSize := by decide

theorem frameAddr_injective (p : FramePool) : Function.Injective p.frameAddr := by
  intro i j h
  have hsum : p.base.toNat + i * pageSize = p.base.toNat + j * pageSize := congrArg PhysAddr.toNat h
  exact Nat.eq_of_mul_eq_mul_right pageSize_pos (by omega)

theorem mem_used {p : FramePool} {pa : PhysAddr} : pa ∈ p.used ↔ ∃ i ∈ p.members, p.frameAddr i = pa := by
  simp [used]

theorem nodup_used (p : FramePool) : p.used.Nodup :=
  p.members.nodup.map p.frameAddr_injective

/-- Each frame is either free or in use. -/
theorem WellFormed.freeFrames_add_card {p : FramePool} (h : p.WellFormed) :
    p.freeFrames + p.used.card = p.frameCount := by
  rw [used, Multiset.card_map]
  exact h.arena.balance

theorem lt_frameCount {p : FramePool} {i : Nat} (hi : i ∈ p.members) : i < p.frameCount :=
  Finset.mem_range.1 (Finset.mem_filter.1 hi).1

/-- Every address within a frame leads to that frame. -/
theorem indexOf?_frameAddr_add {p : FramePool} {i k : Nat} (hi : i < p.frameCount) (hk : k < pageSize) :
    p.indexOf? ⟨(p.frameAddr i).toNat + k⟩ = some i := by
  have hle : p.base ≤ ⟨(p.frameAddr i).toNat + k⟩ := by
    change p.base.toNat ≤ p.base.toNat + i * pageSize + k
    omega
  have hdiv : ((p.frameAddr i).toNat + k - p.base.toNat) / pageSize = i := by
    change (p.base.toNat + i * pageSize + k - p.base.toNat) / pageSize = i
    rw [show p.base.toNat + i * pageSize + k - p.base.toNat = k + i * pageSize by omega,
      Nat.add_mul_div_right _ _ pageSize_pos, Nat.div_eq_of_lt hk, Nat.zero_add]
  simp [indexOf?, hle, hdiv, hi]

theorem indexOf?_frameAddr {p : FramePool} {i : Nat} (hi : i ∈ p.members) : p.indexOf? (p.frameAddr i) = some i :=
  indexOf?_frameAddr_add (lt_frameCount hi) pageSize_pos

theorem WellFormed.offset_of_mem_used {p : FramePool} (h : p.WellFormed) {pa : PhysAddr} (hpa : pa ∈ p.used) :
    pa.offset = 0 := by
  obtain ⟨i, _, rfl⟩ := mem_used.1 hpa
  change (p.base.toNat + i * pageSize) % pageSize = 0
  rw [Nat.add_mul_mod_self_right, h.aligned]

/-- An address within a frame in use leads to the bytes of that frame. -/
theorem indexOf?_add {p : FramePool} {pa : PhysAddr} (hpa : pa ∈ p.used)
    {k : Nat} (hk : k < pageSize) : p.indexOf? ⟨pa.toNat + k⟩ = p.indexOf? pa := by
  obtain ⟨i, hi, rfl⟩ := mem_used.1 hpa
  rw [indexOf?_frameAddr_add (lt_frameCount hi) hk, indexOf?_frameAddr hi]

theorem exists_content? {p : FramePool} {pa : PhysAddr} (hpa : pa ∈ p.used) :
    ∃ content, p.content? pa = some content := by
  obtain ⟨i, hi, rfl⟩ := mem_used.1 hpa
  have hlt : i < p.contents.size := lt_frameCount hi
  exact ⟨p.contents[i], by simp [content?, indexOf?_frameAddr hi, hlt]⟩

@[simp] theorem frameCount_new (base : PhysAddr) (count : Nat) : (new base count).frameCount = count := by
  simp [frameCount, new]

theorem used_new (base : PhysAddr) (count : Nat) : (new base count).used = 0 := by
  rw [used, members, frameCount_new, new, Arena.used_new]
  rfl

theorem wellFormed_new (base : PhysAddr) (count : Nat) : (new base count).WellFormed where
  aligned := Nat.mul_mod_left ..
  arena := by
    rw [frameCount_new]
    exact Arena.wellFormed_new count

/-- Replacing the bytes of a frame changes neither which frames are in use nor the bytes of any other. -/
theorem WellFormed.setContent {p : FramePool} (h : p.WellFormed) (pa : PhysAddr) (content : PageContent) :
    (p.setContent pa content).WellFormed := by
  unfold FramePool.setContent
  split
  · exact ⟨h.aligned, by simpa [frameCount] using h.arena⟩
  · exact h

@[simp] theorem arena_setContent (p : FramePool) (pa : PhysAddr) (content : PageContent) :
    (p.setContent pa content).arena = p.arena := by
  unfold setContent
  split <;> rfl

@[simp] theorem base_setContent (p : FramePool) (pa : PhysAddr) (content : PageContent) :
    (p.setContent pa content).base = p.base := by
  unfold setContent
  split <;> rfl

@[simp] theorem frameCount_setContent (p : FramePool) (pa : PhysAddr) (content : PageContent) :
    (p.setContent pa content).frameCount = p.frameCount := by
  unfold setContent
  split <;> simp [frameCount]

@[simp] theorem used_setContent (p : FramePool) (pa : PhysAddr) (content : PageContent) :
    (p.setContent pa content).used = p.used := by
  have haddr : (p.setContent pa content).frameAddr = p.frameAddr := by
    funext i
    simp [frameAddr]
  simp [used, members, haddr]

@[simp] theorem indexOf?_setContent (p : FramePool) (pa pa' : PhysAddr) (content : PageContent) :
    (p.setContent pa content).indexOf? pa' = p.indexOf? pa' := by
  simp [indexOf?]

theorem content?_setContent_self {p : FramePool} {pa : PhysAddr} (hpa : pa ∈ p.used) (content : PageContent) :
    (p.setContent pa content).content? pa = some content := by
  obtain ⟨i, hi, rfl⟩ := mem_used.1 hpa
  have hlt : i < p.contents.size := lt_frameCount hi
  have hindex := indexOf?_frameAddr hi
  simp only [content?, indexOf?_setContent, hindex, Option.bind_some]
  simp [FramePool.setContent, hindex, hlt]

theorem content?_setContent_of_ne {p : FramePool} {pa pa' : PhysAddr} (hpa : pa ∈ p.used) (hpa' : pa' ∈ p.used)
    (hne : pa' ≠ pa) (content : PageContent) : (p.setContent pa content).content? pa' = p.content? pa' := by
  obtain ⟨i, hi, rfl⟩ := mem_used.1 hpa
  obtain ⟨j, hj, rfl⟩ := mem_used.1 hpa'
  have hij : i ≠ j := fun e => hne (by rw [e])
  simp only [content?, indexOf?_setContent, indexOf?_frameAddr hj, Option.bind_some]
  simp [FramePool.setContent, indexOf?_frameAddr hi, hij]

/-- Laying bytes over a frame replaces its bytes by the overlaid ones. -/
theorem overlay_eq_setContent {p : FramePool} {pa : PhysAddr} {content : PageContent}
    (h : p.content? pa = some content) (start : Nat) (bytes : Bytes) :
    p.overlay pa start bytes = p.setContent pa (Content.overlay content start bytes) := by
  simp [overlay, h]

/-- The lowest frame that is not in use is handed out, filled with zeros, unless all are in use. -/
theorem WellFormed.alloc_cases {p : FramePool} (h : p.WellFormed) :
    (p.alloc = .ok none ∧ p.members = Finset.range p.frameCount) ∨ ∃ i q, p.alloc = .ok (some (p.frameAddr i, q)) ∧
      q.WellFormed ∧ i < p.frameCount ∧ i ∉ p.members ∧ (∀ j < i, j ∈ p.members) ∧ q.base = p.base ∧
      q.members = insert i p.members ∧ q.contents = p.contents.setIfInBounds i (Content.zero pageSize) := by
  obtain ⟨hnone, hall⟩ | ⟨i, b, halloc, hb, hi, hnot, hused, hlow⟩ := h.arena.alloc_cases
  · exact .inl ⟨by rw [alloc, hnone], hall⟩
  · set q : FramePool := { p with arena := b, contents := p.contents.setIfInBounds i (Content.zero pageSize) }
    have hcount : q.frameCount = p.frameCount := Array.size_setIfInBounds
    refine .inr ⟨i, q, ?_, ⟨h.aligned, hcount.symm ▸ hb⟩, hi, hnot, hlow, rfl, ?_, rfl⟩
    · rw [alloc, halloc]
      exact if_pos hi
    · rw [members, hcount]
      exact hused

/-- There is a frame to hand out unless none is free. -/
theorem WellFormed.alloc_eq_none_iff {p : FramePool} (h : p.WellFormed) : p.alloc = .ok none ↔ p.freeFrames = 0 := by
  have hbalance := h.freeFrames_add_card
  rw [used, Multiset.card_map] at hbalance
  obtain ⟨hnone, hall⟩ | ⟨i, q, halloc, -, hi, hnot, -⟩ := h.alloc_cases
  · rw [hall, ← Finset.card_def, Finset.card_range] at hbalance
    exact iff_of_true hnone (by omega)
  · have hlt : p.members.card < (Finset.range p.frameCount).card :=
      Finset.card_lt_card ⟨Finset.filter_subset _ _, fun hsub => hnot (hsub (Finset.mem_range.2 hi))⟩
    rw [Finset.card_range, Finset.card_def] at hlt
    rw [halloc]
    exact iff_of_false (fun h => by cases h) (by omega)

/-- A frame is handed out, or there is none. -/
theorem WellFormed.alloc_ok {p : FramePool} (h : p.WellFormed) : ∃ r, p.alloc = .ok r := by
  obtain ⟨hnone, -⟩ | ⟨i, q, halloc, -⟩ := h.alloc_cases
  · exact ⟨_, hnone⟩
  · exact ⟨_, halloc⟩

/-- A frame that is handed out was not in use, and its bytes are zeros. -/
theorem WellFormed.of_alloc {p q : FramePool} {pa : PhysAddr} (h : p.WellFormed)
    (halloc : p.alloc = .ok (some (pa, q))) :
    q.WellFormed ∧ q.used = pa ::ₘ p.used ∧ pa ∉ p.used ∧ q.base = p.base ∧ q.frameCount = p.frameCount ∧
      q.content? pa = some (Content.zero pageSize) ∧ ∀ pa' ∈ p.used, q.content? pa' = p.content? pa' := by
  obtain ⟨hnone, -⟩ | ⟨i, q', halloc', hq, hi, hnot, -, hbase, hmembers, hcontents⟩ := h.alloc_cases
  · rw [hnone] at halloc
    cases halloc
  rw [halloc', Except.ok.injEq, Option.some.injEq, Prod.mk.injEq] at halloc
  obtain ⟨rfl, rfl⟩ := halloc
  have hcount : q'.frameCount = p.frameCount := by simp [frameCount, hcontents]
  have haddr : q'.frameAddr = p.frameAddr := by
    funext j
    rw [frameAddr, frameAddr, hbase]
  have hindex (pa' : PhysAddr) : q'.indexOf? pa' = p.indexOf? pa' := by rw [indexOf?, indexOf?, hbase, hcount]
  have hfresh : p.frameAddr i ∉ p.used := fun hmem => by
    obtain ⟨j, hj, heq⟩ := mem_used.1 hmem
    exact hnot (p.frameAddr_injective heq ▸ hj)
  have hsize : i < p.contents.size := hi
  refine ⟨hq, ?_, hfresh, hbase, hcount, ?_, fun pa' hpa' => ?_⟩
  · have hcons : (insert i p.members).val = i ::ₘ p.members.val := by
      rw [Finset.insert_val]
      exact Multiset.ndinsert_of_notMem hnot
    rw [used, hmembers, hcons, Multiset.map_cons, haddr, used]
  · have hself : p.indexOf? (p.frameAddr i) = some i := indexOf?_frameAddr_add hi pageSize_pos
    rw [content?, hindex, hself]
    simp [hcontents, hsize]
  · obtain ⟨j, hj, rfl⟩ := mem_used.1 hpa'
    have hij : i ≠ j := fun e => hnot (e ▸ hj)
    rw [content?, content?, hindex, indexOf?_frameAddr hj]
    simp [hcontents, hij]

/-- Taking back a frame in use frees that frame only, and touches no bytes. -/
theorem WellFormed.release_frameAddr {p : FramePool} {i : Nat} (h : p.WellFormed) (hi : i ∈ p.members) :
    ∃ q, p.release (p.frameAddr i) = .ok q ∧ q.WellFormed ∧ q.members = p.members.erase i ∧ q.base = p.base ∧
      q.contents = p.contents := by
  obtain ⟨b, hback, hb, hused⟩ := h.arena.setUnused hi
  refine ⟨{ p with arena := b }, ?_, ⟨h.aligned, hb⟩, hused, rfl, rfl⟩
  rw [FramePool.release, indexOf?_frameAddr hi]
  simp only [hback, Except.map]

theorem WellFormed.release {p : FramePool} {pa : PhysAddr} (h : p.WellFormed) (hpa : pa ∈ p.used) :
    ∃ q, p.release pa = .ok q ∧ q.WellFormed ∧ p.used = pa ::ₘ q.used ∧ q.base = p.base ∧ q.contents = p.contents := by
  obtain ⟨i, hi, rfl⟩ := mem_used.1 hpa
  obtain ⟨q, hrelease, hq, hmembers, hbase, hcontents⟩ := h.release_frameAddr hi
  refine ⟨q, hrelease, hq, ?_, hbase, hcontents⟩
  have hcons : p.members.val = i ::ₘ (p.members.erase i).val := by
    rw [Finset.erase_val]
    exact (Multiset.cons_erase hi).symm
  have haddr : q.frameAddr = p.frameAddr := by
    funext j
    rw [frameAddr, frameAddr, hbase]
  rw [used, hcons, Multiset.map_cons, used, hmembers, haddr]

theorem alloc_ne_shortage {p : FramePool} {q : Panic} (h : p.alloc = .error q) (what : Shortage) :
    q ≠ .shortage what := by
  unfold alloc at h
  split at h
  next halloc =>
    obtain rfl := Except.error.inj h
    obtain ⟨hnone, -⟩ | ⟨i, hset, -⟩ := p.arena.alloc_cases
    · rw [hnone] at halloc
      cases halloc
    · rw [hset] at halloc
      cases hused : p.arena.setUsed i with
      | ok b =>
        rw [hused] at halloc
        cases halloc
      | error q' =>
        rw [hused] at halloc
        obtain rfl := Except.error.inj halloc
        exact Arena.setUsed_ne_shortage hused what
  · cases h
  · split at h <;> cases h
    exact Panic.noConfusion

theorem release_ne_shortage {p : FramePool} {pa : PhysAddr} {q : Panic} (h : p.release pa = .error q)
    (what : Shortage) : q ≠ .shortage what := by
  unfold FramePool.release at h
  split at h
  · cases h
  next i _ =>
    cases hset : p.arena.setUnused i with
    | ok b =>
      rw [hset] at h
      cases h
    | error q' =>
      rw [hset] at h
      obtain rfl := Except.error.inj h
      exact Arena.setUnused_ne_shortage hset what

theorem content?_congr {p q : FramePool} (hbase : q.base = p.base) (hcontents : q.contents = p.contents)
    (pa : PhysAddr) : q.content? pa = p.content? pa := by
  cases p
  cases q
  subst hbase hcontents
  rfl

/-- The bytes of the frame in use at `pa`; nothing for an address at which no frame in use begins. -/
def frame? (p : FramePool) (pa : PhysAddr) : Option PageContent := if pa ∈ p.used then p.content? pa else none

theorem isSome_frame? {p : FramePool} {pa : PhysAddr} :
    (p.frame? pa).isSome ↔ pa ∈ p.used := by
  unfold frame?
  split
  next hpa =>
    obtain ⟨content, hcontent⟩ := exists_content? hpa
    simp [hcontent, hpa]
  next hpa => simp [hpa]

theorem mem_used_of_frame? {p : FramePool} {pa : PhysAddr} {content : PageContent}
    (hframe : p.frame? pa = some content) : pa ∈ p.used :=
  isSome_frame?.1 (by simp [hframe])

theorem content?_of_frame? {p : FramePool} {pa : PhysAddr} {content : PageContent}
    (hframe : p.frame? pa = some content) : p.content? pa = some content := by
  unfold frame? at hframe
  split at hframe
  · exact hframe
  · cases hframe

/-- Handing out a frame puts zeros at an address at which no frame in use began. -/
theorem WellFormed.frame?_of_alloc {p q : FramePool} {pa : PhysAddr} (h : p.WellFormed)
    (halloc : p.alloc = .ok (some (pa, q))) :
    q.WellFormed ∧ p.frame? pa = none ∧ q.frame? = Function.update p.frame? pa (some (Content.zero pageSize)) := by
  obtain ⟨hq, hused, hfresh, _, _, hzero, hsame⟩ := h.of_alloc halloc
  refine ⟨hq, by simp [frame?, hfresh], funext fun pa' => ?_⟩
  by_cases hpa : pa' = pa
  · subst hpa
    simp [frame?, hused, hzero]
  · rw [Function.update_of_ne hpa]
    simp only [frame?, hused, Multiset.mem_cons, hpa, false_or]
    split
    next hmem => exact hsame pa' hmem
    next => rfl

theorem WellFormed.frame?_release {p : FramePool} {pa : PhysAddr} (h : p.WellFormed) (hpa : pa ∈ p.used) :
    ∃ q, p.release pa = .ok q ∧ q.WellFormed ∧ q.frame? = Function.update p.frame? pa none := by
  obtain ⟨q, hrelease, hq, hused, hbase, hcontents⟩ := h.release hpa
  refine ⟨q, hrelease, hq, funext fun pa' => ?_⟩
  have hnodup := p.nodup_used
  rw [hused, Multiset.nodup_cons] at hnodup
  by_cases hpa' : pa' = pa
  · subst hpa'
    simp [frame?, hnodup.1]
  · rw [Function.update_of_ne hpa']
    simp only [frame?, hused, Multiset.mem_cons, hpa', false_or, content?_congr hbase hcontents]

theorem frame?_setContent {p : FramePool} {pa : PhysAddr} (hpa : pa ∈ p.used)
    (content : PageContent) :
    (p.setContent pa content).frame? = Function.update p.frame? pa (some content) := by
  funext pa'
  by_cases hpa' : pa' = pa
  · subst hpa'
    simp [frame?, hpa, content?_setContent_self hpa]
  · rw [Function.update_of_ne hpa']
    simp only [frame?, used_setContent]
    split
    next hmem => exact content?_setContent_of_ne hpa hmem hpa' content
    next => rfl

end DemandPaging.FramePool
