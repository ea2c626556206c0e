import DemandPaging.Proofs.Reachability
import DemandPaging.Proofs.TrackedSpaces

/-!
Claimed pages are mapped. When a claim succeeds, or a fault is resolved, the hardware entry of the page leads to the
frame that the page records. Only those pages escape this that could not be evicted, that the page table then refused to
map again, and that have stayed in their frames without being mapped since.
-/

namespace DemandPaging

open Paging

variable {s t u : System} {p : PageId} {l : Losses} {lost : PageId → Prop}

namespace System

/-- The hardware entry of `p` leads to the frame of its page, may be written through exactly if the page is writable, and
does not let its bytes be executed. -/
def Maps (s : System) (p : PageId) (page : PageEntry) : Prop :=
  ∃ e, s.entry? p = some e ∧ page.frame = some e.frame ∧ e.flags.present = true ∧ e.flags.user = true ∧
    e.flags.writable = page.writable ∧ e.flags.noExecute = true

/-- There is a page at `p`, it is in a frame, and the hardware does not lead to it. -/
def Astray (s : System) (p : PageId) : Prop :=
  ∃ page, s.page? p = some page ∧ page.frame ≠ none ∧ ¬ s.Maps p page

theorem maps_iff {page : PageEntry} {pa : PhysAddr} (hframe : page.frame = some pa) :
    s.Maps p page ↔ s.LeadsTo p pa page.writable := by
  constructor
  · rintro ⟨⟨frame, flags⟩, hentry, hleads, hpresent, huser, hwritable, hexecute⟩
    obtain rfl := Option.some.inj (hframe.symm.trans hleads)
    obtain ⟨present, writable, user, accessed, dirty, noExecute⟩ := flags
    cases hpresent
    cases huser
    cases hwritable
    cases hexecute
    exact Option.map_eq_some_iff.2 ⟨_, hentry, rfl⟩
  · intro h
    obtain ⟨e, hentry, hlead⟩ := Option.map_eq_some_iff.1 h
    have hflags := congrArg Prod.snd hlead
    exact ⟨e, hentry, hframe.trans (congrArg (fun x => some x.1) hlead).symm,
      (congrArg EntryFlags.present hflags : _), (congrArg EntryFlags.user hflags : _),
      (congrArg EntryFlags.writable hflags : _), (congrArg EntryFlags.noExecute hflags : _)⟩

/-- A claim of the page at `p`, which ended in `t`, returned the frame at `pa`: the page is in it now. It is mapped there
if it was in no frame before, and otherwise nothing happened. -/
def Claimed (s t : System) (p : PageId) (pa : PhysAddr) : Prop :=
  ∃ page, t.page? p = some page ∧ page.frame = some pa ∧ (s.Bare p ∧ t.Maps p page ∨ s.page? p = some page ∧
    ∀ q, t.entry? q = s.entry? q)

end System

namespace Paging

theorem wp_claim_claimed (hs : s.Tracks l) (id : SpaceId) (va : VirtAddr) :
    wp (claim id va) s (fun pa t => s.Claimed t ⟨id, va.pageDown⟩ pa) fun _ _ => True := by
  refine (wp_claim_tracks hs id va).mono (fun pa t hclaimed => ?_) fun _ _ _ => trivial
  obtain ⟨-, -, page, page', hpage, hpage', hframe', ⟨hframe, hlead⟩ | ⟨-, rfl⟩⟩ := hclaimed
  · have hbare : s.Bare ⟨id, va.pageDown⟩ := fun page'' h => by
      obtain rfl := Option.some.inj (hpage.symm.trans h)
      exact hframe
    exact ⟨page', hpage', hframe', .inl ⟨hbare, (System.maps_iff hframe').2 hlead⟩⟩
  · exact ⟨page', hpage', hframe', .inr ⟨hpage', fun _ => rfl⟩⟩

/-- A page that makes the stack grow was in no frame before it is claimed. -/
theorem wp_growStack_claimed (hs : s.Tracks l) (id : SpaceId) (va : VirtAddr) (hfree : s.page? ⟨id, va.pageDown⟩ = none) :
    wp (growStack id va) s (fun _ t => ∃ pa, s.Claimed t ⟨id, va.pageDown⟩ pa) fun _ _ => True := by
  have hbare : s.Bare ⟨id, va.pageDown⟩ := fun page hpage => by
    rw [hfree] at hpage
    cases hpage
  unfold growStack
  rw [wp_bind]
  refine (wp_addPage_tracks hs id .anon va.pageDown true .zero).mono (fun _ t ⟨ht, _, hdescribed⟩ => ?_)
    fun _ _ _ => trivial
  rw [VirtAddr.pageDown_pageDown] at hdescribed
  rw [wp_bind, wp_note, wp_bind, wp_orUndo]
  have hnote : t.Calm { t with log := t.log.push (.stackGrown va.pageDown) } := .of_note _
  refine (wp_claim_claimed (hnote.tracks ht) id va).mono (fun pa u ⟨page, hpage, hframe, hmaps⟩ => ?_) fun f u _ => ?_
  · have hbefore := hnote.bare hdescribed
    refine ⟨pa, page, hpage, hframe, .inl ⟨hbare, hmaps.elim And.right fun h => ?_⟩⟩
    rw [hbefore page h.1] at hframe
    cases hframe
  · cases f with
    | error e => exact wp.of_forall (fun _ _ => trivial) fun _ _ => trivial
    | panic q => trivial

theorem wp_resolveFault_claimed (hs : s.Tracks l) (id : SpaceId) (f : Fault) :
    wp (resolveFault id f) s (fun _ t => ∃ pa, s.Claimed t ⟨id, f.addr.pageDown⟩ pa) fun _ _ => True := by
  simp only [resolveFault, wp_ite, wp_bind, wp_note, wp_fail, wp_space]
  split
  · trivial
  · cases hpage : (s.space id).page? f.addr with
    | none =>
      simp only [wp_bind, wp_pager]
      cases f.growsStack s.pager with
      | error o => trivial
      | ok grows =>
        rw [wp_word_ok, wp_ite]
        split
        · exact wp_growStack_claimed hs id f.addr hpage
        · trivial
    | some page =>
      simp only [wp_ite, wp_bind, wp_note, wp_fail, wp_pure]
      split
      · trivial
      · exact (wp_claim_claimed hs id f.addr).mono (fun pa t h => ⟨pa, h⟩) fun _ _ _ => trivial

end Paging

/-- The call makes the page of `id` at `va` resident if it ends well. -/
def Call.Claims (c : Call) (id : SpaceId) (va : VirtAddr) : Prop :=
  c = .claim id va ∨ ∃ f, c = .fault id f ∧ f.addr = va

namespace System

/-- Something changes that is not the paging system's: the files, the requests that the disk will refuse, or those that
a page table will refuse. -/
inductive Setback (s : System) : System → Prop
  | files (files : Array File) : Setback s { s with files := files }
  | faults (faults : Faults) : Setback s
      { s with pager := { s.pager with swap := { s.pager.swap with
          disk := s.pager.swap.disk.map fun d => { d with faults := faults } } } }
  | refusals (id : SpaceId) (map unmap update : List VirtAddr) (script : List (Option MappingError)) : Setback s
      { s with spaces := s.spaces.modify id fun sp => { sp with table := { sp.table with
          refuseMap := map, refuseUnmap := unmap, refuseUpdate := update, script := script } } }

/-- A call that ends like this does not end the run: with a result, an ordinary error or a shortage. -/
def Proceeds : Except Failure Answer → Prop
  | .ok _ => True
  | .error f => f.IsExpected

instance : (r : Except Failure Answer) → Decidable (Proceeds r)
  | .ok _ => isTrue trivial
  | .error (.error e) => isTrue (.inl ⟨e, rfl⟩)
  | .error (.panic (.shortage what)) => isTrue (.inr ⟨what, rfl⟩)
  | .error (.panic (.overflow _)) | .error (.panic (.doubleFree _)) | .error (.panic .frameInUse)
  | .error (.panic .frameUnused) | .error (.panic (.outOfBounds _ _)) | .error (.panic .guardDropped) =>
    isFalse (by rintro (⟨_, h⟩ | ⟨_, h⟩) <;> cases h)

/-- The pages that are astray in `t`, at the end of a call, because mapping them again was refused and reported: during
this call, which found the log as long as `l` says, or before it, and then they had been astray since. -/
def StillLost (l : Losses) (t : System) (p : PageId) : Prop := t.Lost l p ∧ t.Astray p

/-- The states that runs lead to in which files, disks and page tables may refuse any request at any time, each with the
pages that have been astray since mapping them again was refused. -/
inductive Attainable : System → (PageId → Prop) → Prop
  | initial {s : System} (h : s.Initial) : Attainable s fun _ => False
  | call {s : System} {lost : PageId → Prop} (h : Attainable s lost) {c : Call} (hc : ∀ id ∈ c.space?, id ∈ s.spaces)
    (hend : Proceeds (c.outcome s).1) : Attainable (c.outcome s).2 (StillLost ⟨lost, s.log.size⟩ (c.outcome s).2)
  | setback {s t : System} {lost : PageId → Prop} (h : Attainable s lost) (ht : s.Setback t) : Attainable t lost

/-- The calls can be made one after the other, and none of them ends the run. -/
def Bears (s : System) : List Call → Prop
  | [] => True
  | c :: cs => (∀ id ∈ c.space?, id ∈ s.spaces) ∧ Proceeds (c.outcome s).1 ∧ (c.outcome s).2.Bears cs

instance decidableBears (s : System) : (cs : List Call) → Decidable (s.Bears cs)
  | [] => inferInstanceAs (Decidable True)
  | _ :: cs => @instDecidableAnd _ _ inferInstance (@instDecidableAnd _ _ inferInstance (decidableBears _ cs))

theorem Attainable.after (h : s.Attainable lost) (cs : List Call) (hcs : s.Bears cs) :
    ∃ lost, (s.after cs).Attainable lost := by
  induction cs generalizing s lost with
  | nil => exact ⟨lost, h⟩
  | cons c cs ih => exact ih (h.call hcs.1 hcs.2.1) hcs.2.2

theorem Setback.calm (h : s.Setback t) : s.Calm t ∧ t.log = s.log := by
  cases h with
  | files files => exact ⟨⟨fun _ => rfl, fun _ _ => rfl, fun _ => rfl, fun _ => Iff.rfl, rfl, List.prefix_rfl⟩, rfl⟩
  | faults faults => exact ⟨.of_pager _ fun _ => rfl, rfl⟩
  | refusals id map unmap update script =>
    refine ⟨.of_modify ?_ ?_, rfl⟩
    · rfl
    · exact fun _ _ => rfl

theorem CalmBut.astray (h : s.Calm t) (hp : s.Astray p) : t.Astray p := by
  obtain ⟨page, hpage, hframe, hmaps⟩ := hp
  refine ⟨page, (h.pages p).trans hpage, hframe, fun hmaps' => hmaps ?_⟩
  obtain ⟨pa, hpa⟩ := Option.ne_none_iff_exists'.1 hframe
  rw [maps_iff hpa] at hmaps' ⊢
  exact hmaps'.of_entries (h.entries p id).symm

theorem Initial.tracks (h : s.Initial) (lost : PageId → Prop) : s.Tracks ⟨lost, s.log.size⟩ where
  logged := le_rfl
  fresh id hid := by
    rw [h.spaces] at hid
    exact absurd hid Std.ExtTreeMap.not_mem_empty
  place p _ := by
    obtain ⟨base, frames, disk, maxStack, hpager⟩ := h.pager_eq
    refine Gone.tracksAt ⟨h.page?_eq_none p, fun {pa o} hpa => ?_⟩
    rw [hpager, Clock.get?_empty] at hpa
    cases hpa

/-- Of the pages lost, only those need be remembered that are astray. -/
theorem TracksBut.stillLost (h : t.Tracks l) : t.Tracks ⟨StillLost l t, t.log.size⟩ where
  logged := le_rfl
  fresh := h.fresh
  place p hp :=
    { registered := (h.place p hp).registered
      mapped := fun {page pa} hpage hframe => by
        rw [← maps_iff hframe]
        by_cases hmaps : t.Maps p page
        · exact .inl hmaps
        · have hlost := ((h.place p hp).mapped hpage hframe).resolve_left fun hlead => hmaps ((maps_iff hframe).2 hlead)
          exact .inr (.inl ⟨hlost, page, hpage, Option.ne_none_iff_exists'.2 ⟨pa, hframe⟩, hmaps⟩) }

theorem Attainable.tracks (h : s.Attainable lost) : s.Tracks ⟨lost, s.log.size⟩ := by
  induction h with
  | initial h => exact h.tracks _
  | @call s lost _ c hc hend ih =>
    refine TracksBut.stillLost ?_
    refine (wp_outcome (P := fun r t => Proceeds r → t.Tracks ⟨lost, s.log.size⟩)).1 ?_ hend
    exact (Call.wp_run_tracks ih hc).mono (fun _ _ ht _ => ht) fun _ _ ht hf => ht hf
  | setback _ ht ih =>
    obtain ⟨hcalm, hlog⟩ := ht.calm
    rw [hlog]
    exact hcalm.tracks ih

theorem Attainable.astray (h : s.Attainable lost) (hp : lost p) : s.Astray p := by
  induction h with
  | initial h => exact hp.elim
  | call _ _ _ ih => exact hp.2
  | setback _ ht ih => exact ht.calm.1.astray (ih hp)

/-- A resident page that is astray was lost. -/
theorem Attainable.maps_iff (h : s.Attainable lost) {page : PageEntry} {pa : PhysAddr} (hpage : s.page? p = some page)
    (hframe : page.frame = some pa) : s.Maps p page ↔ ¬ lost p := by
  constructor
  · intro hmaps hlost
    obtain ⟨page', hpage', -, hnot⟩ := h.astray hlost
    obtain rfl := Option.some.inj (hpage.symm.trans hpage')
    exact hnot hmaps
  · intro hlost
    rw [System.maps_iff hframe]
    refine ((h.tracks.place p id).mapped hpage hframe).resolve_right ?_
    rintro (hbefore | ⟨e, he⟩)
    · exact hlost hbefore
    · rw [List.drop_eq_nil_of_le (by simp)] at he
      exact List.not_mem_nil he

/-- When a claim succeeds, or a fault is resolved, the page is in a frame, which is the one that the claim returns. The
hardware entry leads there, and may be written through exactly if the page is writable, unless the page was lost: mapping
it at its address again after a failed eviction was refused and reported, and it has been in its frame without being
mapped since. -/
theorem Attainable.claimed_page_is_mapped (h : s.Attainable lost) {c : Call} {id : SpaceId} {va : VirtAddr} {a : Answer}
    (hc : c.Claims id va) (hok : c.outcome s = (.ok a, t)) :
    ∃ page pa, t.page? ⟨id, va.pageDown⟩ = some page ∧ page.frame = some pa ∧ (∀ pa', a = .frame pa' → pa' = pa) ∧
      (t.Maps ⟨id, va.pageDown⟩ page ↔ ¬ lost ⟨id, va.pageDown⟩) := by
  have hrun : wp c.run s (fun b u => ∃ pa, s.Claimed u ⟨id, va.pageDown⟩ pa ∧ ∀ pa', b = .frame pa' → pa' = pa)
      fun _ _ => True := by
    rcases hc with rfl | ⟨f, rfl, rfl⟩
    · unfold Call.run
      rw [wp_bind]
      refine (wp_claim_claimed h.tracks id va).mono (fun pa u hu => ⟨pa, hu, fun pa' hpa' => ?_⟩) fun _ _ h => h
      exact (Answer.frame.inj hpa').symm
    · unfold Call.run
      rw [wp_bind]
      refine (wp_resolveFault_claimed h.tracks id f).mono (fun _ u ⟨pa, hu⟩ => ⟨pa, hu, fun pa' hpa' => ?_⟩)
        fun _ _ h => h
      cases hpa'
  unfold Call.outcome at hok
  unfold wp at hrun
  cases hresult : c.run s with
  | error f u =>
    simp only [hresult] at hok
    cases hok
  | ok b u =>
    simp only [hresult] at hok hrun
    cases hok
    obtain ⟨pa, ⟨page, hpage, hframe, hclaimed⟩, hpa⟩ := hrun
    refine ⟨page, pa, hpage, hframe, hpa, ?_⟩
    obtain ⟨hbare, hmaps⟩ | ⟨hbefore, hentries⟩ := hclaimed
    · refine iff_of_true hmaps fun hlost => ?_
      obtain ⟨page', hpage', hframe', -⟩ := h.astray hlost
      exact hframe' (hbare page' hpage')
    · have hsame : t.Maps ⟨id, va.pageDown⟩ page ↔ s.Maps ⟨id, va.pageDown⟩ page := by
        unfold Maps
        rw [hentries]
      exact hsame.trans (h.maps_iff hbefore hframe)

/-- The system with a page table of the space `id` that refuses to map the given addresses. -/
def refusing (s : System) (id : SpaceId) (vas : List VirtAddr) : System :=
  { s with spaces := s.spaces.modify id fun sp => { sp with table := { sp.table with
      refuseMap := vas, refuseUnmap := [], refuseUpdate := [], script := [] } } }

/-- One of two pages is in the only frame, and the disk writes nothing more. -/
def crowded : System :=
  ((small {}).after [.create, .addPage 0 .anon ⟨0x1000⟩ true .zero, .store 0 ⟨0x1000⟩ 0 7,
    .addPage 0 .anon ⟨0x2000⟩ true .zero]).withFaults { write := List.range 16 }

theorem attainable_crowded : ∃ lost, crowded.Attainable lost := by
  obtain ⟨lost, h⟩ := (Attainable.initial (initial_small {})).after [.create, .addPage 0 .anon ⟨0x1000⟩ true .zero,
    .store 0 ⟨0x1000⟩ 0 7, .addPage 0 .anon ⟨0x2000⟩ true .zero] (by decide +kernel)
  exact ⟨lost, h.setback (.faults _)⟩

theorem outcome_eq_of_toOption {c : Call} {a : Answer} (h : (c.outcome s).1.toOption = some a) :
    c.outcome s = (.ok a, (c.outcome s).2) := by
  generalize c.outcome s = o at h
  obtain ⟨f | b, t⟩ := o
  · cases h
  · exact congrArg (fun b => (Except.ok b, t)) (Option.some.inj h)

/-- The other page cannot be claimed at first. Once the disk writes again, a fault brings it in, and it is mapped. -/
theorem exists_claimed_page_is_mapped : ∃ (s t : System) (lost : PageId → Prop) (f : Fault), s.Attainable lost ∧
    f.addr = ⟨0x2008⟩ ∧ (Call.fault 0 f).outcome s = (.ok .done, t) ∧
    ∃ page, t.page? ⟨0, ⟨0x2000⟩⟩ = some page ∧ page.frame = some ⟨0x1000000⟩ ∧ t.Maps ⟨0, ⟨0x2000⟩⟩ page := by
  let f : Fault := { addr := ⟨0x2008⟩, isWrite := true, isPresent := false, stackPointer := 0 }
  obtain ⟨_, hcrowded⟩ := attainable_crowded
  obtain ⟨lost, hafter⟩ := hcrowded.after [.claim 0 ⟨0x2000⟩] (by decide +kernel)
  let s := (crowded.after [.claim 0 ⟨0x2000⟩]).withFaults {}
  have hs : s.Attainable lost := hafter.setback (.faults {})
  have hok : (Call.fault 0 f).outcome s = (.ok .done, _) := outcome_eq_of_toOption (by decide +kernel)
  have hdown : f.addr.pageDown = ⟨0x2000⟩ := by decide
  have hmapped := hs.claimed_page_is_mapped (.inr ⟨f, rfl, rfl⟩) hok
  rw [hdown] at hmapped
  obtain ⟨page, pa, hpage, hframe, _, hmaps⟩ := hmapped
  have hbare : ∀ page ∈ s.page? ⟨0, ⟨0x2000⟩⟩, page.frame = none := by decide +kernel
  have hpa : ∀ page ∈ ((Call.fault 0 f).outcome s).2.page? ⟨0, ⟨0x2000⟩⟩, page.frame = some ⟨0x1000000⟩ := by
    decide +kernel
  refine ⟨s, _, lost, f, hs, rfl, hok, page, hpage, hpa page hpage, hmaps.2 fun hlost => ?_⟩
  obtain ⟨page', hpage', hframe', -⟩ := hs.astray hlost
  exact hframe' (hbare page' hpage')

/-- The page in the frame could neither be evicted nor mapped again. A claim succeeds nevertheless, and the page stays
unmapped. -/
theorem exists_claimed_page_unmapped : ∃ (s t : System) (lost : PageId → Prop), s.Attainable lost ∧
    (Call.claim 0 ⟨0x1000⟩).outcome s = (.ok (.frame ⟨0x1000000⟩), t) ∧
    (∃ page, t.page? ⟨0, ⟨0x1000⟩⟩ = some page ∧ page.frame = some ⟨0x1000000⟩) ∧ t.entry? ⟨0, ⟨0x1000⟩⟩ = none := by
  obtain ⟨_, hcrowded⟩ := attainable_crowded
  obtain ⟨lost, hs⟩ := (hcrowded.setback (.refusals 0 [⟨0x1000⟩] [] [] [])).after [.claim 0 ⟨0x2000⟩]
    (by decide +kernel)
  let s := (crowded.refusing 0 [⟨0x1000⟩]).after [.claim 0 ⟨0x2000⟩]
  refine ⟨s, _, lost, hs, outcome_eq_of_toOption (by decide +kernel), ⟨⟨true, .anon none, some ⟨0x1000000⟩⟩, ?_⟩, ?_⟩
  · decide +kernel
  · decide +kernel

end System

end DemandPaging
