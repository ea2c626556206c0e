import DemandPaging.Proofs.Orderly

/-!
The search for a victim. A frame is passed over at most once before its page is tried: then its accessed bit is clear,
and nothing that the search does sets it again. So a search that may look at twice as many frames as there are tries the
page of every one before it gives up.
-/

namespace DemandPaging

open Paging

namespace PageTable

variable {t t' : PageTable} {va va' : VirtAddr}

theorem isAccessed_of_map {pa : PhysAddr} {p : Permission} (hmap : t.map va pa p = .ok t')
    (h : t'.isAccessed va' = true) : t.isAccessed va' = true := by
  rw [isAccessed, entries_of_map hmap, Std.ExtTreeMap.getElem?_insert] at h
  split at h
  · simp [EntryFlags.ofPermission] at h
  · exact h

theorem isAccessed_of_unmap {r : PhysAddr × PageTable} (hunmap : t.unmap va = .ok r)
    (h : r.2.isAccessed va' = true) : t.isAccessed va' = true := by
  rw [isAccessed, entries_of_unmap hunmap, Std.ExtTreeMap.getElem?_erase] at h
  split at h
  · simp at h
  · exact h

/-- Where a change of bits sets no accessed bit, none is set after it. -/
theorem isAccessed_of_update {f : EntryFlags → EntryFlags} (hf : ∀ flags, (f flags).accessed = true →
    flags.accessed = true) (hupdate : t.update va f = .ok t') (h : t'.isAccessed va' = true) :
    t.isAccessed va' = true := by
  obtain ⟨e, hentry, hentries⟩ := entries_of_update hupdate
  rw [isAccessed, hentries, Std.ExtTreeMap.getElem?_insert] at h
  split at h
  next heq =>
    obtain rfl : va = va' := Std.LawfulEqCmp.eq_of_compare heq
    rw [isAccessed, hentry]
    exact hf _ h
  next => exact h

theorem isAccessed_setAccessed (hupdate : t.setAccessed va false = .ok t') : t'.isAccessed va = false := by
  obtain ⟨e, _, hentries⟩ := entries_of_update hupdate
  rw [isAccessed, hentries, Std.ExtTreeMap.getElem?_insert_self]
  rfl

end PageTable

namespace System

variable {s t u v : System} {o : Occupant} {tried : List PhysAddr}

/-- The page of `o` was used since the clock hand last passed it. -/
def IsAccessed (s : System) (o : Occupant) : Prop := (s.space o.space).table.isAccessed o.va = true

/-- The search for a victim that began in `v` has led to this state, in which the given frames were tried, and the page
of none of them could be persisted. -/
inductive Search (v : System) : List PhysAddr → System → Prop
  | start : Search v [] v
  /-- A page that was used gets a second chance. -/
  | pass {tried : List PhysAddr} {s t : System} {pa : PhysAddr} {o : Occupant} (h : Search v tried s)
    (hfront : s.pager.resident.front? = some (pa, o)) (hused : testAndClearAccessed o s = .ok true t) :
    Search v tried { t with pager := { t.pager with resident := t.pager.resident.rotate } }
  | fail {tried : List PhysAddr} {s t u w : System} {pa : PhysAddr} {o : Occupant} {e : Errno} (h : Search v tried s)
    (hfront : s.pager.resident.front? = some (pa, o)) (hunused : testAndClearAccessed o s = .ok false t)
    (htaken : unregister pa t = .ok (some o) u) (hfailed : persist pa o u = .ok (.error (.error e)) w) :
    Search v (pa :: tried) { w with pager := { w.pager with resident := (w.pager.resident.pushBack pa o).2 } }

/-! ### What persisting a page leaves alone -/

/-- The frames are registered as they were, none was taken or given back, and no page was used. -/
structure KeepsFrames (s t : System) : Prop where
  resident : t.pager.resident = s.pager.resident
  pool : t.pager.pool = s.pager.pool
  unused : ∀ o, t.IsAccessed o → s.IsAccessed o

namespace KeepsFrames

theorem refl (s : System) : s.KeepsFrames s := ⟨rfl, rfl, fun _ => id⟩

theorem trans (h : s.KeepsFrames t) (h' : t.KeepsFrames u) : s.KeepsFrames u :=
  ⟨h'.resident.trans h.resident, h'.pool.trans h.pool, fun o ho => h.unused o (h'.unused o ho)⟩

theorem of_modify {id : SpaceId} {g : Space → Space} (hg : ∀ va, (g (s.space id)).table.isAccessed va = true →
    (s.space id).table.isAccessed va = true) : s.KeepsFrames { s with spaces := s.spaces.modify id g } := by
  refine ⟨rfl, rfl, fun o ho => ?_⟩
  by_cases hid : id ∈ s.spaces
  · rw [IsAccessed, space_modify hid] at ho
    split at ho
    next h =>
      rw [IsAccessed, h]
      exact hg _ ho
    next => exact ho
  · rwa [modify_spaces_of_not_mem hid] at ho

end KeepsFrames

end System

open DemandPaging.System

namespace Paging

variable {α : Type} {s : System} {o : Occupant}

/-- The action takes no frame, registers none, and uses no page. -/
def Sparing (x : Paging α) : Prop := Along (fun _ => True) System.KeepsFrames x

theorem composable_sparing : Composable Sparing :=
  composable_along KeepsFrames.refl KeepsFrames.trans fun _ _ _ => ⟨trivial, rfl, rfl, fun _ => id⟩

theorem sparing_onFile (f : FileId) (x : EStateM Failure File α) : Sparing (onFile f x) := by
  intro s _
  have hafter (file : File) : True ∧ s.KeepsFrames { s with files := s.files.setIfInBounds f file } :=
    ⟨trivial, rfl, rfl, fun _ => id⟩
  unfold wp onFile
  cases x (s.file f) with
  | ok a file => exact hafter file
  | error e file => exact hafter file

theorem sparing_onSwapDevice (x : EStateM Errno SwapDevice α) : Sparing (onSwapDevice x) := by
  intro s _
  have hafter (swap : SwapDevice) : True ∧ s.KeepsFrames { s with pager := { s.pager with swap := swap } } :=
    ⟨trivial, rfl, rfl, fun _ => id⟩
  unfold wp onSwapDevice
  cases x s.pager.swap with
  | ok a swap => exact hafter swap
  | error e swap => exact hafter swap

theorem sparing_takeSlot : Sparing takeSlot := by
  intro s _
  simp only [takeSlot, wp_bind, wp_pager]
  cases s.pager.swap.alloc? with
  | none => exact ⟨trivial, .refl s⟩
  | some found => exact ⟨trivial, rfl, rfl, fun _ => id⟩

theorem sparing_freeSlot (slot : SwapSlot) : Sparing (freeSlot slot) := by
  intro s _
  simp only [freeSlot, wp_bind, wp_pager]
  cases s.pager.swap.free slot with
  | error p => exact ⟨trivial, .refl s⟩
  | ok t => exact ⟨trivial, rfl, rfl, fun _ => id⟩

theorem sparing_mapping (r : Except MappingError Unit) : Sparing (mapping r) := by
  intro s _
  cases r <;> exact ⟨trivial, .refl s⟩

/-- A page table is replaced, and no accessed bit is set, or the request is refused. -/
theorem sparing_request {id : SpaceId} {x : PageTable → Except MappingError PageTable}
    (hx : ∀ {t t' va}, x t = .ok t' → t'.isAccessed va = true → t.isAccessed va = true) : Sparing (request id x) := by
  intro s _
  rw [wp_request]
  refine ⟨trivial, .of_modify fun va h => ?_⟩
  obtain ⟨u, hdone, hr⟩ | ⟨e, hr⟩ := (s.space id).table.request_cases x
  · rw [hr] at h
    have hnext : (s.space id).table.next.isAccessed va = true := hx hdone h
    exact hnext
  · rw [hr] at h
    exact h

theorem sparing_unmapPage (id : SpaceId) (va : VirtAddr) (event : MappingError → Event) :
    Sparing (unmapPage id va event) := by
  have hP := composable_sparing
  refine hP.bind (sparing_request fun hunmap => ?_) fun r => ?_
  · obtain ⟨r, hr, rfl⟩ := PageTable.exists_of_unmap_map hunmap
    exact PageTable.isAccessed_of_unmap hr
  · cases r with
    | error e => exact hP.note _
    | ok _ => exact hP.pure _

/-- To persist a page, no frame is taken, none is registered, and no page is used. -/
theorem persisting_sparing : Persisting Sparing fun _ => True where
  toComposable := composable_sparing
  throw _ s hs := ⟨hs, .refl s⟩
  space _ s hs := ⟨hs, .refl s⟩
  modifySpace _ g hg s hs := ⟨hs, .of_modify fun va h => by rwa [hg] at h⟩
  mapPage _ _ _ _ := composable_sparing.bind (sparing_request PageTable.isAccessed_of_map) sparing_mapping
  unmapPage _ := sparing_unmapPage _
  markDirty _ _ :=
    composable_sparing.bind (sparing_request (PageTable.isAccessed_of_update fun _ => id)) sparing_mapping
  takeSlot := sparing_takeSlot
  freeSlot := sparing_freeSlot
  writeFile _ _ _ := sparing_onFile _ _
  writeSlot _ _ := sparing_onSwapDevice _

/-- A page that was used counts as unused from now on; one that was not stays as it is. -/
theorem testAndClearAccessed_cases (hs : s.Orderly) (o : Occupant) :
    (¬ s.IsAccessed o ∧ testAndClearAccessed o s = .ok false s) ∨
      s.IsAccessed o ∧ ∃ t, testAndClearAccessed o s = .ok true t ∧ t.pager = s.pager ∧ t.Orderly ∧ s.KeepsFrames t ∧
        ¬ t.IsAccessed o := by
  by_cases haccessed : (s.space o.space).table.isAccessed o.va = true
  · obtain ⟨e, hentry, _⟩ := PageTable.exists_of_isAccessed haccessed
    have hset := (hs.tables o.space).update_eq hentry fun f => { f with accessed := false }
    generalize hupdated : ({ (s.space o.space).table with entries := _ } : PageTable) = table at hset
    have hresult : testAndClearAccessed o s =
        .ok true { s with spaces := s.spaces.modify o.space fun sp => { sp with table := table } } := by
      unfold testAndClearAccessed
      change (if (s.space o.space).table.isAccessed o.va = true then _ else _ : Paging Bool) s = _
      rw [if_pos haccessed, bind_eq_of_eq_ok (request_of_ok (hs.tables o.space) hset)]
      rfl
    have hlive : o.space ∈ s.spaces := by
      by_contra hnot
      rw [World.space, Std.ExtTreeMap.getElem?_eq_none hnot] at hentry
      exact absurd hentry (by simp)
    refine .inr ⟨haccessed, _, hresult, rfl, hs.modify ((hs.tables o.space).of_update hset), ?_, ?_⟩
    · exact .of_modify fun va => PageTable.isAccessed_of_update (fun _ h => by cases h) hset
    · rw [IsAccessed, space_modify hlive, if_pos rfl, PageTable.isAccessed_setAccessed hset]
      exact Bool.false_ne_true
  · refine .inl ⟨haccessed, ?_⟩
    unfold testAndClearAccessed
    change (if (s.space o.space).table.isAccessed o.va = true then _ else _ : Paging Bool) s = _
    rw [if_neg haccessed]
    rfl

end Paging

namespace System

variable {s t : System} {budget : Nat} {tried tried' : List PhysAddr}

/-- Every page that was not tried will be, before the search has looked at `budget` more frames: its frame stands near
enough to the front of the queue, and if the page was used, it will do so again after its second chance. -/
def InReach (s : System) (tried : List PhysAddr) (budget : Nat) : Prop :=
  ∃ l, s.pager.resident.Represents l ∧
    ∀ i e, l[i]? = some e → e.1 ∈ tried ∨ i < budget ∧ (s.IsAccessed e.2 → i + l.length < budget)

namespace InReach

/-- A search that may look at twice as many frames as there are reaches them all. -/
theorem start (hs : s.Orderly) : s.InReach [] (2 * s.pager.resident.size + 1) := by
  obtain ⟨l, hl⟩ := hs.queue
  refine ⟨l, hl, fun i e he => .inr ?_⟩
  have hi := (List.getElem?_eq_some_iff.1 he).1
  rw [hl.size]
  omega

/-- A search that has come to its end has tried all resident frames. -/
theorem mem_tried (h : s.InReach tried budget) (hend : budget = 0 ∨ s.pager.resident.front? = none) {pa : PhysAddr}
    {o : Occupant} (ho : s.pager.resident.get? pa = some o) : pa ∈ tried := by
  obtain ⟨l, hl, hreach⟩ := h
  obtain ⟨hne, hget⟩ | ⟨A, pa', o', B, hl', heq, -⟩ := hl.entry_cases pa
  · rw [hget] at ho
    cases ho
  · obtain rfl : pa = pa' := Std.LawfulEqCmp.eq_of_compare heq
    obtain hmem | ⟨hlt, -⟩ := hreach A.length (pa, o') (by rw [hl']; simp)
    · exact hmem
    · obtain rfl | hfront := hend
      · exact absurd hlt (Nat.not_lt_zero _)
      · rw [hl.front?_eq, hl', List.head?_eq_none_iff] at hfront
        simp at hfront

/-- The frame in front goes behind all others, after it was tried or passed over. -/
theorem behind {pa : PhysAddr} {o : Occupant} {l : List (PhysAddr × Occupant)}
    (hreach : ∀ i e, ((pa, o) :: l)[i]? = some e →
      e.1 ∈ tried ∨ i < budget + 1 ∧ (s.IsAccessed e.2 → i + ((pa, o) :: l).length < budget + 1))
    (ht : t.pager.resident.Represents (l ++ [(pa, o)])) (hunused : ∀ o, t.IsAccessed o → s.IsAccessed o)
    (htried : ∀ pa ∈ tried, pa ∈ tried')
    (hnow : pa ∈ tried' ∨ s.IsAccessed o ∧ ¬ t.IsAccessed o) : t.InReach tried' budget := by
  refine ⟨_, ht, fun i e he => ?_⟩
  simp only [List.length_append, List.length_cons, List.length_nil, Nat.zero_add] at hreach ⊢
  rw [List.getElem?_append] at he
  split at he
  next hi =>
    obtain hmem | ⟨hlt, hused⟩ := hreach (i + 1) e (by simpa using he)
    · exact .inl (htried _ hmem)
    · refine .inr ⟨by omega, fun haccessed => ?_⟩
      have hfar := hused (hunused _ haccessed)
      omega
  next hi =>
    obtain ⟨hzero, rfl⟩ : i - l.length = 0 ∧ (pa, o) = e := by
      cases hk : i - l.length with
      | zero => simpa [hk] using he
      | succ k => simp [hk] at he
    obtain hmem | ⟨haccessed, hcleared⟩ := hnow
    · exact .inl hmem
    · obtain hmem | ⟨-, hused⟩ := hreach 0 (pa, o) (by simp)
      · exact .inl (htried _ hmem)
      · have hfar := hused haccessed
        exact .inr ⟨by omega, fun haccessed' => absurd haccessed' hcleared⟩

end InReach

end System

end DemandPaging
