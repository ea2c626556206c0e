import DemandPaging.Proofs.History
import DemandPaging.Proofs.Machine

/-!
Copies on a machine with several pagers. A page is looked up in the frames and slots of the pager that the copy belongs
to. If its own pager is another one, something else may be found there.
-/

namespace DemandPaging

namespace System

variable {s t : System} {dst src : SpaceId} {a : Answer} {va : VirtAddr} {page : PageEntry} {slot : Option SwapSlot}

/-- A copy holds what the original held before, and so does the original. -/
theorem holds_of_duplicate (hs : s.WellFormed) (hv : s.view.Sound) (hc : (Call.duplicate dst src).Admissible s)
    (hrun : (Call.duplicate dst src).outcome s = (.ok a, t)) (hpage : s.page? ⟨src, va⟩ = some page)
    (hkind : page.kind = .anon slot) :
    ∃ content, s.Holds ⟨src, va⟩ content ∧ t.Holds ⟨src, va⟩ content ∧ t.Holds ⟨dst, va⟩ content := by
  obtain ⟨ht, ds, htrace, hexplains⟩ := exists_explains hs hv hc
  rw [hrun] at ht htrace hexplains
  have hv' : t.view.Sound := htrace.sound hv
  have hother : (Call.duplicate dst src).target? s ≠ some src := (hc.source src rfl).2
  obtain ⟨content, hmemory, hholds⟩ := holds_of_anonymous hv hpage hkind
  have hsrc : t.view.memory ⟨src, va⟩ = some content := by
    rw [htrace.memory_eq hv, Deed.foldl_apply_of_spares fun d hd => (hexplains.allowed d hd).spares hother, hmemory]
  have hdst : t.view.memory ⟨dst, va⟩ = some content := by
    have hsome : (s.view.pages ⟨src, va⟩).isSome := Option.isSome_iff_exists.2 ⟨page, hpage⟩
    rw [hexplains.tells a rfl va, if_pos hsome, hmemory]
  exact ⟨content, hholds, holds_of_memory hv' hsrc, holds_of_memory hv' hdst⟩

end System

/-- The answer that a call ended with, if it did. -/
def Outcome.answer? : Outcome → Option Answer
  | .answer a => some a
  | _ => none

namespace Machine

/-- The page at `p`. -/
def page? (m : Machine) (p : PageId) : Option PageEntry := (m.space p.space).pages[p.va]?

/-- The bytes that the page at `p` holds now. -/
def held? (m : Machine) (p : PageId) : Option PageContent := (m.page? p).bind (m.content? p.space)

variable {m n : Machine} {k : Nat} {p : Pager} {q : PageId} {content : PageContent}

theorem page?_part (hhome : m.homes[q.space]? = some k) : (m.part k p).page? q = m.page? q := by
  rw [System.page?, page?, space_part hhome]

/-- What a page holds in the system of its pager, it holds. -/
theorem held?_of_holds (hp : m.pagers[k]? = some p) (hhome : m.homes[q.space]? = some k)
    (h : (m.part k p).Holds q content) : m.held? q = some content := by
  have hpager : m.pagerOf? q.space = some p := by
    rw [pagerOf?, homeOf, hhome]
    exact hp
  cases h with
  | @frame page pa hpage hframe hcontent =>
    rw [page?_part hhome] at hpage
    rw [held?, hpage, Option.bind_some, Machine.content?, hpager, hframe]
    exact hcontent
  | @slot page slot hpage hkind hframe hcontent =>
    rw [page?_part hhome] at hpage
    rw [held?, hpage, Option.bind_some, Machine.content?, hpager, hframe, hkind]
    exact congrArg some hcontent

/-- A copy within one pager holds what the original held, and so does the original. -/
theorem Reachable.copy_holds_the_same (h : m.Reachable) {dst src : SpaceId} (hhome : m.homeOf src = m.homeOf dst)
    {k : Nat} {a : Answer} (hrun : m.answer (.duplicate dst src) k = (.answer a, n)) {va : VirtAddr} {page : PageEntry}
    {slot : Option SwapSlot} (hpage : m.page? ⟨src, va⟩ = some page) (hkind : page.kind = .anon slot) :
    ∃ content, m.held? ⟨src, va⟩ = some content ∧ n.held? ⟨src, va⟩ = some content ∧
      n.held? ⟨dst, va⟩ = some content := by
  have hanswers := h.sound.answers (c := .duplicate dst src) (fun _ ht => by cases ht) k
  rw [hrun] at hanswers
  generalize ho : Outcome.answer a = o at hanswers
  cases hanswers with
  | refused hne => exact absurd ho.symm (hne a)
  | imported hc hne =>
    cases hc
    exact absurd hhome hne
  | @made j p s t r hp hj hc hcall hfollows =>
    cases r with
    | error f => cases ho
    | ok b =>
      obtain ⟨hs, hv⟩ := h.sound.part j p hp
      have hdst := (mem_spaces_part.1 (hc.space dst rfl)).1
      have hsrc := (mem_spaces_part.1 (hc.source src rfl).1).1
      have hv' : t.view.Sound := by
        obtain ⟨_, ds, htrace, _⟩ := System.exists_explains hs hv hc
        rw [hcall] at htrace
        exact htrace.sound hv
      obtain ⟨content, hholds, hholds', hcopied⟩ :=
        System.holds_of_duplicate hs hv hc hcall ((page?_part (q := ⟨src, va⟩) hsrc).trans hpage) hkind
      rw [← h.sound.part_resume hp hfollows hv'] at hholds' hcopied
      have hp' : (m.resume j s).pagers[j]? = some s.pager :=
        Array.getElem?_setIfInBounds_self_of_lt (Array.getElem?_eq_some_iff.1 hp).1
      exact ⟨content, held?_of_holds hp hsrc hholds, held?_of_holds hp' (homes_resume_of_home hsrc) hholds',
        held?_of_holds hp' (homes_resume_of_home hdst) hcopied⟩

/-- Calls in sequence, each with the number of the pager that answers if the call is about no address space. -/
def after (m : Machine) : List (Call × Nat) → Machine
  | [] => m
  | (c, k) :: cs => (m.answer c k).2.after cs

/-- Calls that bring no page tables of their own lead to machines that can be reached. -/
theorem Reachable.after (h : m.Reachable) {cs : List (Call × Nat)} (hcs : ∀ c ∈ cs, c.1.table? = none) :
    (m.after cs).Reachable := by
  induction cs generalizing m with
  | nil => exact h
  | cons c cs ih =>
    obtain ⟨hc, hcs⟩ := List.forall_mem_cons.1 hcs
    exact ih (h.call (fun t ht => by rw [hc] at ht; cases ht) c.2) hcs

/-- A machine of two pagers without disks. -/
def pair : Machine where
  pagers := #[⟨.new ⟨0x1000000⟩ 2, .empty, .new none, 0, 0x100000, #[]⟩,
    ⟨.new ⟨0x1000000⟩ 4, .empty, .new none, 0, 0x100000, #[]⟩]
  log := #[.frameCount 2, .usable ⟨0x1000000⟩ 2, .swapCount 0, .frameCount 4, .usable ⟨0x1000000⟩ 4, .swapCount 0]

theorem reachable_pair : pair.Reachable := by
  have hempty : Reachable {} := .initial ⟨rfl, rfl, rfl, rfl, rfl⟩
  have hfirst : Reachable _ := hempty.pager (show addPager {} { frames := 2 } = .ok _ from rfl)
  exact hfirst.pager (c := { frames := 4 }) rfl

/-- Two address spaces of the pagers `first` and `second`, each with a page that was written. -/
def written (first second : Nat) : Machine :=
  pair.after [(.create, first), (.create, second), (.addPage 0 .anon ⟨0x100000⟩ true .zero, 0),
    (.store 0 ⟨0x100000⟩ 0 7, 0), (.addPage 1 .anon ⟨0x200000⟩ true .zero, 0), (.store 1 ⟨0x200000⟩ 0 9, 0)]

/-- The first byte of the page at `p`. -/
def firstByte? (m : Machine) (p : PageId) : Option UInt8 := (m.held? p).map (Content.byteAt · 0)

theorem answer_eq {m : Machine} {c : Call} {k : Nat} {a : Answer} (h : (m.answer c k).1.answer? = some a) :
    m.answer c k = (.answer a, (m.answer c k).2) := by
  cases ho : (m.answer c k).1 with
  | answer b =>
    rw [ho] at h
    obtain rfl : b = a := Option.some.inj h
    rw [← ho]
  | _ =>
    rw [ho] at h
    cases h

/-- The copy of a page within one pager starts with the byte that was stored in the page. -/
theorem exists_copy_holds_the_same : (written 1 1).Reachable ∧ (written 1 1).homeOf 0 = (written 1 1).homeOf 1 ∧
    ∃ n, (written 1 1).answer (.duplicate 1 0) 0 = (.answer .done, n) ∧ n.firstByte? ⟨0, ⟨0x100000⟩⟩ = some 7 ∧
      n.firstByte? ⟨1, ⟨0x100000⟩⟩ = some 7 := by
  have hreach : (written 1 1).Reachable := reachable_pair.after (by decide +kernel)
  have hhome : (written 1 1).homeOf 0 = (written 1 1).homeOf 1 := by decide +kernel
  have hrun := answer_eq (m := written 1 1) (c := .duplicate 1 0) (k := 0) (a := .done) (by decide +kernel)
  have hkind : ((written 1 1).page? ⟨0, ⟨0x100000⟩⟩).map PageEntry.kind = some (.anon none) := by decide +kernel
  have hbyte : (written 1 1).firstByte? ⟨0, ⟨0x100000⟩⟩ = some 7 := by decide +kernel
  obtain ⟨page, hpage, hkind⟩ := Option.map_eq_some_iff.1 hkind
  obtain ⟨content, hheld, hsrc, hdst⟩ := hreach.copy_holds_the_same hhome hrun hpage hkind
  refine ⟨hreach, hhome, _, hrun, ?_, ?_⟩
  · rw [firstByte?, hsrc, ← hheld]
    exact hbyte
  · rw [firstByte?, hdst, ← hheld]
    exact hbyte

/-- A page is copied into an address space of another pager. The copy starts with the byte of another page. -/
theorem exists_copy_holds_another : (written 0 1).Reachable ∧
    ∃ n, (written 0 1).answer (.duplicate 1 0) 0 = (.answer .done, n) ∧
      ((written 0 1).page? ⟨0, ⟨0x100000⟩⟩).map PageEntry.kind = some (.anon none) ∧
      n.firstByte? ⟨0, ⟨0x100000⟩⟩ = some 7 ∧ n.firstByte? ⟨1, ⟨0x100000⟩⟩ = some 9 :=
  ⟨reachable_pair.after (by decide +kernel), _, answer_eq (by decide +kernel), by decide +kernel, by decide +kernel,
    by decide +kernel⟩

end Machine

end DemandPaging
