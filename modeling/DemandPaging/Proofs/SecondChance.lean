import DemandPaging.Proofs.FixedFaults

/-!
Second chance. The victim is the first page in clock order that was not used and can be persisted; if there is none, all
accessed bits are clear after the first round, and the victim is the first page that can be persisted at all.
-/

namespace DemandPaging

open Paging

/-- The element `a`, which is behind those of `A`, is the first of which `P` holds. -/
def IsFirst {α : Type} (P : α → Prop) (A : List α) (a : α) : Prop := P a ∧ ∀ b ∈ A, ¬ P b

theorem exists_isFirst {α : Type} {P : α → Prop} {l : List α} (h : ∃ a ∈ l, P a) :
    ∃ A a B, l = A ++ a :: B ∧ IsFirst P A a := by
  classical
  obtain ⟨a, ha⟩ := Option.isSome_iff_exists.1 (List.find?_isSome.2 (by simpa using h) : (l.find? (P ·)).isSome)
  obtain ⟨hP, A, B, hl, hA⟩ := List.find?_eq_some_iff_append.1 ha
  exact ⟨A, a, B, hl, of_decide_eq_true hP, by simpa using hA⟩

namespace System

variable {s t u v : System} {pa : PhysAddr} {o : Occupant} {l A B : List (PhysAddr × Occupant)} {fails : PhysAddr → Prop}

/-- In `t`, the page of `o` has left the frame at `pa`. No other page has lost or got a frame, and one eviction more is
counted. -/
structure EvictsOne (s : System) (pa : PhysAddr) (o : Occupant) (t : System) : Prop where
  page : ∃ page kind, s.page? o.id = some page ∧ page.frame = some pa ∧
    t.page? = Function.update s.page? o.id (some { page with kind := kind, frame := none })
  entry : t.entry? o.id = none
  registered : s.pager.resident.get? pa = some o
  resident : t.pager.resident.get? = Function.update s.pager.resident.get? pa none
  evictions : t.pager.evictions = s.pager.evictions + 1

theorem LosesNothing.evictsOne {P : PhysAddr → Prop} (hlost : s.LosesNothing P t) (hevicts : t.Evicts pa o u)
    (ho : t.pager.resident.get? pa = some o) : s.EvictsOne pa o u.tally where
  page := by
    obtain ⟨page, kind, hpage, hframe, hpages⟩ := hevicts.evicted.page
    rw [hlost.pages] at hpage hpages
    exact ⟨page, kind, hpage, hframe, hpages⟩
  entry := (congrFun hevicts.evicted.entries o.id).trans (Function.update_self ..)
  registered := (congrFun hlost.resident pa).symm.trans ho
  resident := by
    have hresident := hevicts.evicted.resident
    rwa [hlost.resident] at hresident
  evictions := by
    obtain ⟨resident, swap, hpager⟩ := hevicts.pager
    obtain ⟨resident', disk, hpager'⟩ := hlost.pager
    change u.pager.evictions + 1 = _
    rw [hpager, hpager']

/-- An eviction sets and clears no accessed bits but that of the page that goes. -/
theorem Evicts.isAccessed_tally_iff (h : s.Evicts pa o u) {o' : Occupant} (hne : o'.id ≠ o.id) :
    u.tally.IsAccessed o' ↔ s.IsAccessed o' := by
  rw [isAccessed_iff, isAccessed_iff]
  change (∃ e, u.view.entries o'.id = some e ∧ _) ↔ _
  have hentries : u.view.entries = Function.update s.view.entries o.id none := h.evicted.entries
  rw [hentries, Function.update_of_ne hne]

namespace Seeking

variable (h : Seeking v s) (hfails : v.FailsAt fails)

include h hfails

/-- Frames whose pages were used or cannot be persisted go behind the others, in their order, and those pages count as
unused from then on. -/
theorem scan (hl : s.clock = A ++ l) (hA : ∀ e ∈ A, s.IsAccessed e.2 ∨ fails e.1) :
    ∃ t, Seeking v t ∧ t.clock = l ++ A ∧ (∀ o, t.IsAccessed o ↔ s.IsAccessed o ∧ ∀ e ∈ A, o.id ≠ e.2.id) ∧
      ∀ n, Paging.evictWithin (A.length + n) s = Paging.evictWithin n t := by
  induction A generalizing s l with
  | nil => exact ⟨s, h, by simpa using hl, by simp, by simp⟩
  | cons e A ih =>
    obtain ⟨pa, o⟩ := e
    have hkept := hA _ List.mem_cons_self
    have hne (e : PhysAddr × Occupant) (he : e ∈ A) : e.2.id ≠ o.id :=
      ((List.pairwise_cons.1 (hl ▸ h.steady.pairwise_id)).1 e (List.mem_append_left _ he)).symm
    cases h.look hl with
    | @skipped t _ ht hclock hbits hrest =>
      obtain ⟨u, hu, huclock, hubits, hurest⟩ := ih ht (l := l ++ [(pa, o)]) (hclock.trans (List.append_assoc ..))
        fun e he => (hA e (List.mem_cons_of_mem _ he)).imp_left fun hused => (hbits e.2).2 ⟨hused, hne e he⟩
      refine ⟨u, hu, by rw [huclock, List.append_assoc, List.singleton_append], fun o' => ?_, fun n => ?_⟩
      · rw [hubits, hbits, List.forall_mem_cons, and_assoc]
      · rw [List.length_cons, Nat.add_right_comm, hrest, hurest]
    | evicted hunused hattempt =>
      obtain ⟨e, he⟩ := (hfails _ _ _ _ hattempt).1 (hkept.resolve_left hunused)
      cases he
    | stopped hunused hattempt hf =>
      obtain ⟨e, he⟩ := (hfails _ _ _ _ hattempt).1 (hkept.resolve_left hunused)
      obtain ⟨what, rfl⟩ := hf
      cases he

/-- A page that was not used and can be persisted is evicted. -/
theorem victim (hl : s.clock = (pa, o) :: l) (hunused : ¬ s.IsAccessed o) (hpa : ¬ fails pa) :
    ∃ u, s.Evicts pa o u ∧ u.clock = l ∧ ∀ n, Paging.evictWithin (n + 1) s = .ok pa u.tally := by
  cases h.look hl with
  | skipped hkept =>
    obtain ⟨e, u, hattempt⟩ := hkept.resolve_left hunused
    cases (hfails _ _ _ _ hattempt).2 hpa
  | evicted _ _ hclock hevicts hend => exact ⟨_, hevicts, hclock, hend⟩
  | stopped _ hattempt => cases (hfails _ _ _ _ hattempt).2 hpa

/-- Frames that are passed over or tried in vain, and then a victim. -/
theorem scan_victim (hl : s.clock = A ++ (pa, o) :: B) (hA : ∀ e ∈ A, s.IsAccessed e.2 ∨ fails e.1)
    (hunused : ¬ s.IsAccessed o) (hpa : ¬ fails pa) {n : Nat} (hn : A.length < n) :
    ∃ t, Paging.evictWithin n s = .ok pa t ∧ v.EvictsOne pa o t ∧ t.clock = B ++ A ∧
      (∀ e ∈ A, ¬ t.IsAccessed e.2) ∧ ∀ e ∈ B, t.IsAccessed e.2 ↔ s.IsAccessed e.2 := by
  obtain ⟨-, hB, hAB⟩ := List.pairwise_append.1 (hl ▸ h.steady.pairwise_id)
  obtain ⟨t, ht, hclock, hbits, hrest⟩ := h.scan hfails hl hA
  obtain ⟨u, hevicts, hend, hresult⟩ := ht.victim hfails hclock (fun hused => hunused ((hbits o).1 hused).1) hpa
  have ho : t.pager.resident.get? pa = some o := ht.steady.get?_of_mem (hclock ▸ List.mem_cons_self)
  obtain ⟨k, rfl⟩ := Nat.exists_eq_add_of_lt hn
  refine ⟨u.tally, ?_, ht.loses.evictsOne hevicts ho, hend, fun e he hused => ?_, fun e he => ?_⟩
  · rw [Nat.add_assoc, hrest, hresult]
  · rw [hevicts.isAccessed_tally_iff (hAB e he _ List.mem_cons_self), hbits] at hused
    exact hused.2 e he rfl
  · rw [hevicts.isAccessed_tally_iff ((List.pairwise_cons.1 hB).1 e he).symm, hbits, and_iff_left_iff_imp]
    exact fun _ a ha => (hAB a ha e (List.mem_cons_of_mem _ he)).symm

end Seeking

/-- The frame between those of `A` and those of `B` is that of the victim, and `t` is what the eviction makes of `s`. -/
structure Victim (s : System) (fails : PhysAddr → Prop) (A : List (PhysAddr × Occupant)) (pa : PhysAddr) (o : Occupant)
    (B : List (PhysAddr × Occupant)) (t : System) : Prop where
  split : s.clock = A ++ (pa, o) :: B
  evicts : s.EvictsOne pa o t
  clock : t.clock = B ++ A
  /-- The frames in front of it lose their accessed bits. -/
  cleared : ∀ e ∈ A, ¬ t.IsAccessed e.2
  /-- It is the first one that was not used and can be persisted, and those behind it were not looked at; or there is
  no such frame, and it is the first one that can be persisted. -/
  chosen : IsFirst (fun e : PhysAddr × Occupant => ¬ fails e.1 ∧ ¬ s.IsAccessed e.2) A (pa, o) ∧
      (∀ e ∈ B, t.IsAccessed e.2 ↔ s.IsAccessed e.2) ∨
    (∀ e ∈ s.clock, fails e.1 ∨ s.IsAccessed e.2) ∧ IsFirst (fun e : PhysAddr × Occupant => ¬ fails e.1) A (pa, o) ∧
      ∀ e ∈ B, ¬ t.IsAccessed e.2

/-- A victim is found if there is any page that can be persisted: two rounds are enough. -/
theorem Steady.exists_victim (hs : s.Steady) (hfails : s.FailsAt fails) (hsome : ∃ e ∈ s.clock, ¬ fails e.1) :
    ∃ A pa o B t, evict s = .ok pa t ∧ s.Victim fails A pa o B t := by
  have hevict : evict s = Paging.evictWithin (2 * s.clock.length + 1) s := by
    rw [← hs.represents.size]
    rfl
  have hstart := Seeking.start hs
  rw [hevict]
  by_cases hspare : ∃ e ∈ s.clock, ¬ fails e.1 ∧ ¬ s.IsAccessed e.2
  · obtain ⟨A, ⟨pa, o⟩, B, hl, hfirst⟩ := exists_isFirst hspare
    have hA (e : PhysAddr × Occupant) (he : e ∈ A) : s.IsAccessed e.2 ∨ fails e.1 := by
      have hnot := hfirst.2 e he
      tauto
    obtain ⟨t, ht, hevicts, hclock, hcleared, hkept⟩ := hstart.scan_victim hfails hl hA hfirst.1.2 hfirst.1.1
      (n := 2 * s.clock.length + 1) (by rw [hl, List.length_append]; omega)
    exact ⟨A, pa, o, B, t, ht, hl, hevicts, hclock, hcleared, .inl ⟨hfirst, hkept⟩⟩
  · have hkept (e : PhysAddr × Occupant) (he : e ∈ s.clock) : s.IsAccessed e.2 ∨ fails e.1 := by
      by_contra hnot
      exact hspare ⟨e, he, by tauto⟩
    -- The first round passes over every frame or tries its page in vain, and clears all bits.
    obtain ⟨u, hu, hclock, hbits, hround⟩ := hstart.scan hfails (A := s.clock) (l := []) (List.append_nil _).symm hkept
    have hunused (e : PhysAddr × Occupant) (he : e ∈ s.clock) : ¬ u.IsAccessed e.2 := fun hused =>
      ((hbits e.2).1 hused).2 e he rfl
    obtain ⟨A, ⟨pa, o⟩, B, hl, hfirst⟩ := exists_isFirst hsome
    have hA (e : PhysAddr × Occupant) (he : e ∈ A) : u.IsAccessed e.2 ∨ fails e.1 :=
      .inr (not_not.1 (hfirst.2 e he))
    obtain ⟨t, ht, hevicts, hclock', hcleared, hsame⟩ := hu.scan_victim hfails (hclock.trans hl) hA
      (hunused (pa, o) (by simp [hl])) hfirst.1 (n := s.clock.length + 1) (by rw [hl, List.length_append]; omega)
    refine ⟨A, pa, o, B, t, ?_, hl, hevicts, hclock', hcleared, .inr ⟨fun e he => (hkept e he).symm, hfirst, ?_⟩⟩
    · rw [Nat.two_mul, Nat.add_assoc, hround, ht]
    · intro e he
      rw [hsame e he]
      exact hunused e (by simp [hl, he])

theorem acquire_eq (s : System) : Paging.acquire s =
    match s.pager.pool.alloc with
    | .ok (some (pa, pool)) => .ok pa { s with pager := { s.pager with pool := pool } }
    | .ok none => evict s
    | .error p => .error (.panic p) s := by
  change (match s.pager.pool.alloc with
    | .ok (some (pa, pool)) => _
    | .ok none => _
    | .error p => _ : Paging PhysAddr) s = _
  cases s.pager.pool.alloc with
  | ok r => cases r <;> rfl
  | error p => rfl

/-- While there is a free frame, one is taken from the pool and nothing else happens. Then every frame comes from the
eviction of one page. As long as there is a page that can be persisted a search finds a victim, and which one that is
can be told from the accessed bits and the order of the clock. -/
theorem Steady.second_chance (hs : s.Steady) :
    (0 < s.pager.pool.freeFrames → ∃ pa pool, s.pager.pool.alloc = .ok (some (pa, pool)) ∧
      Paging.acquire s = .ok pa { s with pager := { s.pager with pool := pool } }) ∧
    (s.pager.pool.freeFrames = 0 → Paging.acquire s = evict s ∧
      ∀ pa t, evict s = .ok pa t → ∃ o, s.EvictsOne pa o t) ∧
    ∀ fails, s.FailsAt fails → (∃ e ∈ s.clock, ¬ fails e.1) →
      ∃ A pa o B t, evict s = .ok pa t ∧ s.Victim fails A pa o B t := by
  have hnone := hs.wellFormed.pool.alloc_eq_none_iff
  have hacquire := s.acquire_eq
  refine ⟨fun hfree => ?_, fun hempty => ?_, fun fails hfails hsome => hs.exists_victim hfails hsome⟩
  · obtain ⟨r, halloc⟩ := hs.wellFormed.pool.alloc_ok
    cases r with
    | none => exact absurd (hnone.1 halloc) (Nat.ne_of_gt hfree)
    | some found =>
      rw [halloc] at hacquire
      exact ⟨found.1, found.2, halloc, hacquire⟩
  · rw [hnone.2 hempty] at hacquire
    refine ⟨hacquire, fun pa t hresult => ?_⟩
    obtain ⟨pool, halloc, -⟩ | ⟨-, o, u, w, l, hu, hclock, -, hevicts, rfl⟩ := hs.acquire.of_ok (hacquire.trans hresult)
    · rw [hnone.2 hempty] at halloc
      cases halloc
    · exact ⟨o, hu.loses.evictsOne hevicts (hu.steady.get?_of_mem (hclock ▸ List.mem_cons_self))⟩

/-- Two frames, two pages, and both were used; one is a page of a file that refuses to be written. -/
def spared : System := ({ small { data := [1, 2, 3], faults := { write := [0] } } with
    pager := { small.pager with pool := .new ⟨0x1000000⟩ 2 } } : System).after
  [.create, .mmap 0 ⟨0x10000⟩ 3 true 0 0, .store 0 ⟨0x10001⟩ 0 9, .addPage 0 .anon ⟨0x1000⟩ true .zero,
    .store 0 ⟨0x1003⟩ 0 7]

/-- The page in front gets its second chance, and stays then because it cannot be persisted; the other one has to go. -/
theorem exists_second_chance : ∃ s : System, s.Reachable ∧ s.pager.pool.freeFrames = 0 ∧ s.FailsAt s.CannotPersist ∧
    s.clock.map Prod.fst = [⟨0x1000000⟩, ⟨0x1001000⟩] ∧ s.CannotPersist ⟨0x1000000⟩ ∧
    ¬ s.CannotPersist ⟨0x1001000⟩ ∧
    ∃ A pa o B t, evict s = .ok pa t ∧ s.Victim s.CannotPersist A pa o B t := by
  have hinitial : ({ small { data := [1, 2, 3], faults := { write := [0] } } with
      pager := { small.pager with pool := .new ⟨0x1000000⟩ 2 } } : System).Initial :=
    ⟨⟨{ frames := 2, disk := some (.blank 16) }, _, rfl⟩, rfl, rfl⟩
  have hreach : spared.Reachable := (Reachable.initial hinitial).after (by decide +kernel)
  have hconst : spared.Constant := by
    refine ⟨fun d hd => ?_, fun f => ?_⟩
    · have hscripts : ∀ d ∈ spared.pager.swap.disk, d.faults.script = [] := by decide +kernel
      exact hscripts d hd
    · by_cases hf : f = 0
      · rw [hf]
        decide +kernel
      · have hsize : spared.files.size = 1 := by decide +kernel
        rw [World.file, Array.getElem?_eq_none (hsize ▸ Nat.pos_of_ne_zero hf)]
        rfl
  have hfails := hreach.steady.failsAt_cannotPersist hconst (by decide +kernel)
  have hfree : spared.pager.pool.freeFrames = 0 := by decide +kernel
  have hframes : spared.clock.map Prod.fst = [⟨0x1000000⟩, ⟨0x1001000⟩] := by decide +kernel
  have hgood : ¬ spared.CannotPersist ⟨0x1001000⟩ := by decide +kernel
  have hsome : ∃ e ∈ spared.clock, ¬ spared.CannotPersist e.1 := by
    have hmem : (⟨0x1001000⟩ : PhysAddr) ∈ spared.clock.map Prod.fst := by simp [hframes]
    obtain ⟨e, he, hpa⟩ := List.mem_map.1 hmem
    exact ⟨e, he, hpa ▸ hgood⟩
  obtain ⟨-, -, hvictim⟩ := Steady.second_chance hreach.steady
  exact ⟨spared, hreach, hfree, hfails, hframes, by decide +kernel, hgood, hvictim _ hfails hsome⟩

end System

end DemandPaging
