import DemandPaging.Proofs.Calls

/-!
Runs of a system. Calls follow each other in any order, each succeeds or fails as it may, and between them files are
changed and the disk begins and ceases to fail.
-/

namespace DemandPaging

namespace System

/-- A pager was just set up, and there is no address space yet. -/
structure Initial (s : System) : Prop where
  pager : ∃ (c : PagerConfig) (events : List Event), c.build = .ok (s.pager, events)
  spaces : s.spaces = ∅
  retired : s.retired = #[]

/-- A system of one frame and two slots, with one file. -/
def small (file : File := {}) : System where
  files := #[file]
  pager := ⟨.new ⟨0x1000000⟩ 1, .empty, .new (some (.blank 16)), 0, 0x100000, #[]⟩

theorem initial_small (file : File) : (small file).Initial where
  pager := ⟨{ frames := 1, disk := some (.blank 16) }, _, rfl⟩
  spaces := rfl
  retired := rfl

/-- Something changes that is not the paging system's: the files, or the requests that the disk or a page table will
refuse. -/
inductive Device (s : System) : System → Prop
  | files (files : Array File) : Device s { s with files := files }
  | tables {id : SpaceId} (hlive : id ∈ s.spaces) (refused : List VirtAddr)
    (hmappable : ∀ va ∈ refused, s.entry? ⟨id, va⟩ = none) : Device s
      { s with spaces := s.spaces.modify id fun sp => { sp with table := { sp.table with refuseMap := refused } } }
  | faults (faults : Faults) : Device s
      { s with pager := { s.pager with swap := { s.pager.swap with
          disk := s.pager.swap.disk.map fun d => { d with faults := faults } } } }

/-- The system with other faults of its disk. -/
def withFaults (s : System) (faults : Faults) : System :=
  { s with pager := { s.pager with swap := { s.pager.swap with
      disk := s.pager.swap.disk.map fun d => { d with faults := faults } } } }

/-- The system after some calls. -/
def after (s : System) : List Call → System
  | [] => s
  | c :: cs => (c.outcome s).2.after cs

/-- The system that `x` leaves behind. -/
def outcomeOf {α : Type} (x : Paging α) (s : System) : System :=
  match x s with
  | .ok _ t | .error _ t => t

theorem exists_of_errno {α : Type} {s : System} {x : Paging α} {e : Errno} (h : (match x s with
    | .error (.error e') _ => e' == e
    | _ => false) = true) : ∃ t, x s = .error (.error e) t := by
  split at h
  next e' t hx => exact ⟨t, by rw [hx, eq_of_beq h]⟩
  next => cases h

/-- The calls can be made one after the other. -/
def Admits (s : System) : List Call → Prop
  | [] => True
  | c :: cs => c.Admissible s ∧ (c.outcome s).2.Admits cs

instance decidableAdmits (s : System) : (cs : List Call) → Decidable (s.Admits cs)
  | [] => inferInstanceAs (Decidable True)
  | c :: cs => @instDecidableAnd _ _ inferInstance (decidableAdmits (c.outcome s).2 cs)

/-- The states that runs lead to. -/
inductive Reachable : System → Prop
  | initial {s : System} (h : s.Initial) : Reachable s
  | call {s : System} (h : Reachable s) {c : Call} (hc : c.Admissible s) : Reachable (c.outcome s).2
  | device {s t : System} (h : Reachable s) (ht : s.Device t) : Reachable t

variable {s t : System}

theorem Initial.pager_eq (h : s.Initial) : ∃ (base : PhysAddr) (frames : Nat) (disk : Option Disk) (maxStack : Nat),
    s.pager = ⟨.new base frames, .empty, .new disk, 0, maxStack, #[]⟩ := by
  obtain ⟨c, events, hbuild⟩ := h.pager
  unfold PagerConfig.build at hbuild
  split at hbuild
  · cases hbuild
  · split at hbuild
    · cases hbuild
    next base _ => exact ⟨base, c.frames, c.disk, c.maxStack, (congrArg Prod.fst (Except.ok.inj hbuild)).symm⟩

theorem Initial.space_eq (h : s.Initial) (id : SpaceId) : s.space id = {} := by
  rw [World.space, h.spaces, Std.ExtTreeMap.getElem?_empty, Option.getD_none]

theorem Initial.page?_eq_none (h : s.Initial) (p : PageId) : s.page? p = none := by
  rw [page?, h.space_eq]
  exact Std.ExtTreeMap.getElem?_empty

theorem Initial.wellFormed (h : s.Initial) : s.WellFormed := by
  obtain ⟨base, frames, disk, maxStack, hpager⟩ := h.pager_eq
  refine ⟨?_, ?_, fun id => ?_, fun t ht => ?_⟩
  · rw [hpager]
    exact FramePool.wellFormed_new base frames
  · rw [hpager]
    exact SwapDevice.wellFormed_new disk
  · rw [h.space_eq]
    exact PageTable.willing_default
  · rw [h.retired] at ht
    exact absurd ht (Array.not_mem_empty t)

theorem Initial.sound (h : s.Initial) : s.view.Sound := by
  obtain ⟨base, frames, disk, maxStack, hpager⟩ := h.pager_eq
  have hlive (id : SpaceId) : ¬ s.view.live id := fun hid => by
    change id ∈ s.spaces at hid
    rw [h.spaces] at hid
    exact Std.ExtTreeMap.not_mem_empty hid
  have hpages (p : PageId) : s.view.pages p = none := h.page?_eq_none p
  have hregions (p : PageId) : s.view.regions p = none := by
    change (s.space p.space).regions[p.va]? = none
    rw [h.space_eq]
    exact Std.ExtTreeMap.getElem?_empty
  have hentries (p : PageId) : s.view.entries p = none := by
    change (s.space p.space).table.entries[p.va]? = none
    rw [h.space_eq]
    exact Std.ExtTreeMap.getElem?_empty
  have hresident (pa : PhysAddr) : s.view.resident pa = none := by
    change s.pager.resident.get? pa = none
    rw [hpager, Clock.get?_empty]
  have hframes (pa : PhysAddr) : s.view.frames pa = none := by
    change s.pager.pool.frame? pa = none
    rw [hpager, FramePool.frame?, FramePool.used_new, if_neg (Multiset.notMem_zero pa)]
  have hslots (slot : SwapSlot) : s.view.slots slot = none := by
    change s.pager.swap.page? slot = none
    rw [hpager, SwapDevice.page?_eq_none_iff]
    simp [SwapDevice.new]
  have hslotOf (p : PageId) : s.view.slotOf p = none := by rw [View.slotOf, hpages, Option.bind_none]
  have hlent : s.view.lent = #[] := congrArg Pager.lent hpager
  refine ⟨fun hp => ?_, fun hp => ?_, fun hid => absurd hid (hlive _), fun {pa o} => ?_, fun p => ?_,
    fun {p} _ => hentries p, fun pa => ?_, ?_⟩
  · rw [hpages] at hp
    cases hp
  · rw [hregions] at hp
    cases hp
  · simp [hresident, hpages]
  · rw [hentries, hpages, Option.map_none, Option.bind_none]
  · rw [hframes, hresident, hlent]
    rfl
  · refine ⟨fun {slot} => ?_, fun {p q slot} hp _ => ?_⟩
    · simp [hslots, hslotOf]
    · rw [hslotOf] at hp
      cases hp

/-- What devices do shows neither in frames nor in slots. -/
theorem Device.view_eq (h : s.Device t) : ∃ files refuses, t.view = { s.view with files := files, refuses := refuses } ∧
    ∀ p, refuses p → s.view.refuses p ∨ s.view.entries p = none := by
  cases h with
  | files files => exact ⟨_, s.view.refuses, rfl, fun _ => .inl⟩
  | @tables id hlive refused hmappable =>
    refine ⟨s.view.files, fun p => if p.space = id then p.va ∈ refused else s.view.refuses p, ?_, fun p hp => ?_⟩
    · have hsame {β : Type} (get : Space → VirtAddr → β) :
          (fun p : PageId => if p.space = id then get (s.space id) p.va else get (s.space p.space) p.va) =
            fun p => get (s.space p.space) p.va :=
        funext fun p => ite_eq_right_iff.2 fun hp => by rw [hp]
      rw [view_modify hlive]
      dsimp only
      congr 1
      · exact hsame fun sp va => sp.pages[va]?
      · exact hsame fun sp va => sp.regions[va]?
      · exact hsame fun sp va => sp.table.entries[va]?
    · dsimp only at hp
      split at hp
      next hspace =>
        subst hspace
        exact .inr (hmappable _ hp)
      next => exact .inl hp
  | faults faults =>
    refine ⟨s.view.files, s.view.refuses, ?_, fun _ => .inl⟩
    have hpage : SwapDevice.page? { s.pager.swap with
        disk := s.pager.swap.disk.map fun d => { d with faults := faults } } = s.pager.swap.page? :=
      SwapDevice.page?_congr rfl fun slot _ => by
        rw [SwapDevice.content, SwapDevice.content]
        cases s.pager.swap.disk <;> rfl
    simp only [System.view, hpage]
    rfl

theorem Device.wellFormed (h : s.Device t) (hs : s.WellFormed) : t.WellFormed := by
  cases h with
  | files files => exact ⟨hs.pool, hs.swap, hs.tables, hs.retired⟩
  | @tables id hlive refused _ =>
    refine ⟨hs.pool, hs.swap, fun id' => ?_, hs.retired⟩
    rw [space_modify hlive]
    split
    · exact ⟨(hs.tables id).unmap, (hs.tables id).update, (hs.tables id).script⟩
    · exact hs.tables id'
  | faults faults =>
    have hshape : SwapDevice.SameShape s.pager.swap
        { s.pager.swap with disk := s.pager.swap.disk.map fun d => { d with faults := faults } } := by
      refine ⟨rfl, ?_⟩
      cases s.pager.swap.disk <;> rfl
    exact ⟨hs.pool, hshape.wellFormed hs.swap, hs.tables, hs.retired⟩

theorem Device.sound (h : s.Device t) (hv : s.view.Sound) : t.view.Sound := by
  obtain ⟨files, refuses, hview, hrefuses⟩ := h.view_eq
  rw [hview]
  exact ⟨hv.page, hv.region, hv.fresh, hv.resident, hv.entry, fun hp => (hrefuses _ hp).elim hv.mappable id, hv.owner,
    hv.slots⟩

/-- A call leads from one well-formed system to another, by deeds that explain it. -/
theorem exists_explains (hs : s.WellFormed) (hv : s.view.Sound) {c : Call} (hc : c.Admissible s) :
    (c.outcome s).2.WellFormed ∧
      ∃ ds, Trace s.view ds (c.outcome s).2.view ∧ c.Explains s (c.outcome s).1 ds (c.outcome s).2 :=
  (Paging.performs_run hs hv hc).outcome

namespace Reachable

theorem wellFormed_and_sound (h : s.Reachable) : s.WellFormed ∧ s.view.Sound := by
  induction h with
  | initial h => exact ⟨h.wellFormed, h.sound⟩
  | call _ hc ih =>
    obtain ⟨hs, hv⟩ := ih
    obtain ⟨ht, ds, htrace, _⟩ := exists_explains hs hv hc
    exact ⟨ht, htrace.sound hv⟩
  | device _ ht ih => exact ⟨ht.wellFormed ih.1, ht.sound ih.2⟩

theorem after (h : s.Reachable) {cs : List Call} (hcs : s.Admits cs) : (s.after cs).Reachable := by
  induction cs generalizing s with
  | nil => exact h
  | cons c cs ih => exact ih (h.call hcs.1) hcs.2

/-- Two pages of one space take turns in the only frame. -/
def turns : List Call :=
  [.create, .addPage 0 .anon ⟨0x1000⟩ true .zero, .addPage 0 .anon ⟨0x2000⟩ true .zero, .claim 0 ⟨0x1000⟩,
    .claim 0 ⟨0x2000⟩]

theorem small_turns : (small.after turns).Reachable := (initial (initial_small {})).after (by decide +kernel)

theorem wellFormed (h : s.Reachable) : s.WellFormed := h.wellFormed_and_sound.1

theorem sound (h : s.Reachable) : s.view.Sound := h.wellFormed_and_sound.2

end Reachable

end System

end DemandPaging
