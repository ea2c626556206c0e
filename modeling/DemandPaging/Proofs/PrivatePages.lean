import DemandPaging.Proofs.ForkedPages
import DemandPaging.Proofs.MappedFile

/-!
What the two sides of a fork see of each other through the files that they share. A page of either side has what it had
at the fork and what was stored in it since, as long as the file behind it is not written, or is written by that page
only, or by pages that agree. Where a page of the other side is written back, and read back on this side, its bytes show
up here.
-/

namespace DemandPaging

/-- The deed copies no page, brings up no page of a file, and declares what it writes. -/
def Deed.IsOfUse : Deed → Prop
  | use _ write _ bytes => bytes = [] ∨ write = true
  | describe _ page => page.kind.window? = none
  | copy _ _ _ => False
  | _ => True

theorem Deed.IsOfStack.isOfUse {d : Deed} {p : PageId} (h : d.IsOfStack p) : d.IsOfUse := by
  obtain rfl | ⟨fresh, rfl⟩ | rfl := h <;> trivial

theorem Deed.IsOfAccess.isOfUse {d : Deed} {id : SpaceId} (h : d.IsOfAccess id) : d.IsOfUse := by
  obtain ⟨va, h⟩ | ⟨va, write, start, bytes, rfl, hbytes⟩ := h
  · exact h.isOfUse
  · exact hbytes

theorem PageKind.source?_of_window? {kind : PageKind} {w : FileWindow} (h : kind.window? = some w) :
    kind.source? = some w := by
  cases kind with
  | pending q =>
    cases q with
    | anon source => cases h
    | file f => exact h
  | anon slot => cases h
  | file f => exact h

namespace Call

/-- The call neither takes pages away, nor copies them, nor brings up pages of files, and declares what it writes. -/
def IsUse : Call → Prop
  | drop _ | teardown _ | fork _ _ | duplicate _ _ | mmap _ _ _ _ _ _ | removePage _ _ | munmap _ _ => False
  | addPage _ type _ _ _ => type = .anon
  | touch _ _ write value => value ≠ none → write = true
  | _ => True

variable {c : Call} {s t : System} {r : Except Failure Answer} {ds : List Deed}

theorem IsUse.not_removes (h : c.IsUse) : ¬ c.Removes := by
  cases c <;> simp_all [IsUse, Removes]

/-- A use takes no page away that was there before. -/
theorem IsUse.keeps (h : c.IsUse) (htrace : Trace s.view ds t.view) (hexplains : c.Explains s r ds t) {p : PageId}
    (hp : (s.view.pages p).isSome) : .remove p ∉ ds :=
  htrace.remove_notMem (hexplains.undoes.resolve_left h.not_removes) not_false hp

theorem IsUse.isOfUse (h : c.IsUse) (hexplains : c.Explains s r ds t) : ∀ d ∈ ds, d.IsOfUse := by
  intro d hd
  have hallowed := hexplains.allowed d hd
  cases c with
  | create => cases hallowed; trivial
  | addPage id type va writable source =>
    obtain rfl : type = .anon := h
    obtain ⟨q, hq, rfl⟩ := hallowed
    obtain rfl := Option.some.inj hq
    rfl
  | claim id va => obtain ⟨fresh, rfl⟩ := hallowed; trivial
  | mapSegment id file offset start readBytes zeroBytes writable =>
    obtain ⟨va, source, rfl, _⟩ | ⟨va, rfl⟩ := hallowed
    · rfl
    · trivial
  | mapStack id => exact Deed.IsOfStack.isOfUse hallowed
  | touch id va write value =>
    obtain ⟨fresh, rfl⟩ | ⟨start, bytes, rfl⟩ := hallowed
    · trivial
    · cases value with
      | some b => exact .inr (h (Option.some_ne_none b))
      | none =>
        have hnone := List.filterMap_eq_nil_iff.1 (List.prefix_nil.1 hexplains.stores) _ hd
        by_cases hbytes : bytes = []
        · exact .inl hbytes
        · simp [Deed.store?, hbytes] at hnone
  | fault id f => exact Deed.IsOfAccess.isOfUse hallowed
  | copyFromUser id va count => exact Deed.IsOfAccess.isOfUse hallowed
  | copyToUser id va bytes => exact Deed.IsOfAccess.isOfUse hallowed
  | load id va sp => exact Deed.IsOfAccess.isOfUse hallowed
  | store id va sp b => exact Deed.IsOfAccess.isOfUse hallowed
  | loadBytes id va count sp => exact Deed.IsOfAccess.isOfUse hallowed
  | storeBytes id va bytes sp => exact Deed.IsOfAccess.isOfUse hallowed
  | lend => cases hallowed; trivial
  | giveBack n => cases hallowed; trivial
  | _ => exact h.elim

/-- The call may write in no page that shares bytes of the file under the window, but perhaps in that at `p`. -/
def Spares (windows : PageId → Option FileWindow) (p : PageId) (w : FileWindow) (c : Call) : Prop :=
  ∀ q, c.Writes q → q ≠ p → ∀ f, windows q = some f → f.Apart w

/-- The call writes in no page that shares bytes of the file under the window. -/
def SparesAll (windows : PageId → Option FileWindow) (w : FileWindow) (c : Call) : Prop :=
  ∀ q, c.Writes q → ∀ f, windows q = some f → f.Apart w

theorem IsUse.sparesWindow (h : c.IsUse) {windows : PageId → Option FileWindow} {w : FileWindow}
    (hspares : c.SparesAll windows w) (haccounts : c.Accounts s r ds t) : ∀ d ∈ ds, d.SparesWindow windows w := by
  intro d hd
  have huse := h.isOfUse haccounts.1 d hd
  cases d with
  | use q write start bytes =>
    refine ⟨fun hwrite => ?_, huse⟩
    subst hwrite
    exact hspares q (haccounts.2 hd)
  | describe q page => exact huse
  | copy q src page => exact huse
  | _ => trivial

/-- A use that spares a window writes in no other page over it. -/
theorem IsUse.writesOnly (h : c.IsUse) {windows : PageId → Option FileWindow} {p : PageId} {w : FileWindow}
    (hspares : c.Spares windows p w) (haccounts : c.Accounts s r ds t) : ∀ d ∈ ds, d.WritesOnly windows p w := by
  intro d hd
  have huse := h.isOfUse haccounts.1 d hd
  cases d with
  | use q write start bytes =>
    intro hwrite
    subst hwrite
    exact hspares q (haccounts.2 hd)
  | describe q page => exact huse
  | copy q src page => exact huse
  | _ => trivial

end Call

namespace System

/-- A run in which pages are only used and nothing but paging writes to the file `f`: the calls that were made, and what
was stored on the way. -/
inductive Use (f : FileId) (s : System) : List Call → List Store → System → Prop
  | start : Use f s [] [] s
  | call {t u : System} {cs : List Call} {sts : List Store} {c : Call} {r : Except Failure Answer} {ds : List Deed}
    (h : Use f s cs sts t) (hc : c.Admissible t) (huse : c.IsUse) (hrun : c.outcome t = (r, u))
    (htrace : Trace t.view ds u.view) (haccounts : c.Accounts t r ds u) : Use f s (cs ++ [c]) (sts ++ storesOf ds) u
  | device {t u : System} {cs : List Call} {sts : List Store} (h : Use f s cs sts t) (ht : t.Device u)
    (hfile : u.file f = t.file f) : Use f s cs sts u

variable {s t u : System} {w : FileWindow} {p : PageId} {c : PageContent} {cs : List Call} {sts : List Store}

/-- What a device does that leaves the file alone does not show in a page over it. -/
theorem Device.holdsUnder (h : s.Device t) (hfile : t.file w.file = s.file w.file) (hold : s.view.HoldsUnder p w c) :
    t.view.HoldsUnder p w c := by
  obtain ⟨files, refuses, hview, _⟩ := h.view_eq
  refine hold.congr ?_ ?_ (fun e he => ⟨e, ?_, rfl⟩) fun _ _ _ _ => ?_
  · rw [System.file_view, System.file_view, hfile]
    exact id
  · rw [hview]
  · rw [hview]
    exact he
  · rw [hview]

theorem Device.accords (h : s.Device t) (hfile : t.file w.file = s.file w.file) (haccords : s.view.Accords w c) :
    t.view.Accords w c := by
  intro q f hwritten
  refine (haccords q f ?_).imp_right (h.holdsUnder hfile)
  obtain ⟨files, refuses, hview, _⟩ := h.view_eq
  rwa [hview] at hwritten

namespace Use

theorem wellFormed_and_sound (h : s.Use w.file cs sts t) (hs : s.WellFormed) (hv : s.view.Sound) :
    t.WellFormed ∧ t.view.Sound := by
  induction h with
  | start => exact ⟨hs, hv⟩
  | call h hc _ hrun htrace _ ih =>
    have hnext := (exists_explains ih.1 ih.2 hc).1
    rw [hrun] at hnext
    exact ⟨hnext, htrace.sound ih.2⟩
  | device _ ht _ ih => exact ⟨ht.wellFormed ih.1, ht.sound ih.2⟩

/-- A use that succeeds stores what it is meant to. -/
theorem call_ok {f : FileId} (h : s.Use f cs sts t) (hs : t.WellFormed) (hv : t.view.Sound) {a : Call} (ha : a.Admissible t)
    (huse : a.IsUse) (hok : (a.outcome t).1.toBool = true) :
    s.Use f (cs ++ [a]) (sts ++ a.stores) (a.outcome t).2 := by
  obtain ⟨_, ds, htrace, haccounts⟩ := (Paging.performs_accounts hs hv ha).outcome
  have hrun := h.call ha huse rfl htrace haccounts
  have hcomplete := haccounts.1.complete
  generalize (a.outcome t).1 = r at hok hcomplete
  cases r with
  | ok b => rwa [hcomplete b rfl] at hrun
  | error e => cases hok

theorem served (h : s.Use w.file cs sts t) : (s.file w.file).Served (t.file w.file) := by
  induction h with
  | start => exact .refl _
  | call _ _ _ _ htrace _ ih => exact ih.trans (htrace.served w.file)
  | device _ _ hfile ih => rwa [hfile]

/-- No page is taken away by uses. -/
theorem isSome_pages (h : s.Use w.file cs sts t) (hp : (s.view.pages p).isSome) : (t.view.pages p).isSome := by
  induction h with
  | start => exact hp
  | call h _ huse _ htrace haccounts ih => exact (htrace.isSome_pages (huse.keeps htrace haccounts.1 ih) ih).1
  | device h ht _ ih =>
    obtain ⟨files, refuses, hview, _⟩ := ht.view_eq
    rw [hview]
    exact ih

/-- Uses of pages show in the page at `p` only by stores in it, as long as its file is not written. -/
theorem holdsUnder_of_unwritten (h : s.Use w.file cs sts t) (hs : s.WellFormed) (hv : s.view.Sound)
    (hserves : (s.file w.file).Serves) (hend : w.offset + w.readBytes ≤ (s.file w.file).data.length)
    (hwrites : (t.file w.file).traffic.writes = (s.file w.file).traffic.writes) (hold : s.view.HoldsUnder p w c) :
    t.view.HoldsUnder p w (stored p c sts) := by
  induction h with
  | start => exact hold
  | @call t u cs sts a r ds h ha huse hrun htrace haccounts ih =>
    have hv' := (h.wellFormed_and_sound hs hv).2
    have hle := h.served.writes_le
    have hle' : (t.file w.file).traffic.writes ≤ (u.file w.file).traffic.writes := (htrace.served w.file).writes_le
    have hbefore := ih (by omega)
    have hkept := huse.keeps htrace haccounts.1 (Option.isSome_iff_exists.2 hbefore.page)
    rw [stored_append]
    refine htrace.holdsUnder_of_unwritten hv' (h.served.serves hserves) (Nat.le_trans hend h.served.length_le) ?_ hkept
      (fun write start bytes hd => huse.isOfUse haccounts.1 _ hd) hbefore
    change (u.file w.file).traffic.writes = (t.file w.file).traffic.writes
    omega
  | @device t u cs sts h ht hfile ih => exact ht.holdsUnder hfile (ih (hfile ▸ hwrites))

/-- Uses of pages show in the page at `p` only by stores in it, as long as no other page is written that shares its
bytes of the file. -/
theorem holdsUnder_of_onlyWriter (h : s.Use w.file cs sts t) (hs : s.WellFormed) (hv : s.view.Sound)
    (hserves : (s.file w.file).Serves) (hend : w.offset + w.readBytes ≤ (s.file w.file).data.length)
    (honly : s.view.OnlyWriter p w) (hspares : ∀ a ∈ cs, a.Spares s.view.windowOf p w)
    (hold : s.view.HoldsUnder p w c) :
    t.view.HoldsUnder p w (stored p c sts) ∧ t.view.OverWindows s.view.windowOf ∧ t.view.OnlyWriter p w := by
  induction h with
  | start => exact ⟨hold, fun _ _ => id, honly⟩
  | @call t u cs sts a r ds h ha huse hrun htrace haccounts ih =>
    have hv' := (h.wellFormed_and_sound hs hv).2
    obtain ⟨hbefore, hwindows, honly'⟩ := ih fun b hb => hspares b (List.mem_append_left _ hb)
    have hkept := huse.keeps htrace haccounts.1 (Option.isSome_iff_exists.2 hbefore.page)
    have hspare := hspares a (List.mem_append_right _ (List.mem_singleton_self a))
    rw [stored_append]
    exact htrace.holdsUnder_of_onlyWriter hv' (h.served.serves hserves) (Nat.le_trans hend h.served.length_le) hwindows
      honly' (huse.writesOnly hspare haccounts) hkept (fun write start bytes hd => huse.isOfUse haccounts.1 _ hd) hbefore
  | @device t u cs sts h ht hfile ih =>
    obtain ⟨hbefore, hwindows, honly'⟩ := ih hspares
    obtain ⟨files, refuses, hview, _⟩ := ht.view_eq
    refine ⟨ht.holdsUnder hfile hbefore, ?_, ?_⟩
    · rw [hview]
      exact hwindows
    · rw [hview]
      exact honly'

/-- Uses of pages that store nothing under the window show in no page there, where the pages that were written agree. -/
theorem holdsUnder_of_accords (h : s.Use w.file cs sts t) (hs : s.WellFormed) (hv : s.view.Sound)
    (hserves : (s.file w.file).Serves) (hend : w.offset + w.readBytes ≤ (s.file w.file).data.length)
    (hpos : 0 < w.readBytes) (haccords : s.view.Accords w c) (hspares : ∀ a ∈ cs, a.SparesAll s.view.windowOf w)
    (hold : s.view.HoldsUnder p w c) :
    t.view.HoldsUnder p w c ∧ stored p c sts = c ∧ t.view.OverWindows s.view.windowOf ∧ t.view.Accords w c := by
  induction h with
  | start => exact ⟨hold, rfl, fun _ _ => id, haccords⟩
  | @call t u cs sts a r ds h ha huse hrun htrace haccounts ih =>
    have hv' := (h.wellFormed_and_sound hs hv).2
    obtain ⟨hbefore, hstored, hwindows, haccords'⟩ := ih fun b hb => hspares b (List.mem_append_left _ hb)
    have hkept := huse.keeps htrace haccounts.1 (Option.isSome_iff_exists.2 hbefore.page)
    have hds := huse.sparesWindow (hspares a (List.mem_append_right _ (List.mem_singleton_self a))) haccounts
    obtain ⟨haccords'', hwindows', hheld⟩ := htrace.holdsUnder_of_accords hv' (h.served.serves hserves)
      (Nat.le_trans hend h.served.length_le) hpos hwindows haccords' hds
    refine ⟨hheld hkept hbefore, ?_, hwindows', haccords''⟩
    rw [stored_append, hstored]
    refine stored_of_forall_ne fun st hst => ?_
    obtain ⟨d, hd, hdst⟩ := List.mem_filterMap.1 hst
    exact (hds d hd).page_ne hpos hold.windowOf_eq hdst
  | @device t u cs sts h ht hfile ih =>
    obtain ⟨hbefore, hstored, hwindows, haccords'⟩ := ih hspares
    refine ⟨ht.holdsUnder hfile hbefore, hstored, ?_, ht.accords hfile haccords'⟩
    obtain ⟨files, refuses, hview, _⟩ := ht.view_eq
    rw [hview]
    exact hwindows

/-- Uses of pages show in the page at `p` only by stores in it, as long as its file is not written, or no other page is
written that shares its bytes of the file, or no page is stored in that does, and those that were written agree. -/
theorem holdsUnder (h : s.Use w.file cs sts t) (hs : s.WellFormed) (hv : s.view.Sound)
    (hserves : (s.file w.file).Serves) (hend : w.offset + w.readBytes ≤ (s.file w.file).data.length)
    (hpos : 0 < w.readBytes) (hprivate : (t.file w.file).traffic.writes = (s.file w.file).traffic.writes ∨
      s.view.OnlyWriter p w ∧ (∀ a ∈ cs, a.Spares s.view.windowOf p w) ∨
      s.view.Accords w c ∧ ∀ a ∈ cs, a.SparesAll s.view.windowOf w)
    (hold : s.view.HoldsUnder p w c) : t.view.HoldsUnder p w (stored p c sts) := by
  obtain hwrites | ⟨honly, hspares⟩ | ⟨haccords, hspares⟩ := hprivate
  · exact h.holdsUnder_of_unwritten hs hv hserves hend hwrites hold
  · exact (h.holdsUnder_of_onlyWriter hs hv hserves hend honly hspares hold).1
  · obtain ⟨hheld, hstored, _⟩ := h.holdsUnder_of_accords hs hv hserves hend hpos haccords hspares hold
    rwa [hstored]

end Use

variable {id x : SpaceId} {table : PageTable} {va : VirtAddr}

/-- A load in a page yields what the page holds, unless there is no frame for it or it may not be mapped. -/
theorem load_of_holdsUnder (hs : s.WellFormed) (hv : s.view.Sound) (hserves : (s.file w.file).Serves)
    (hlimit : w.offset + w.readBytes < Word.limit) (hend : w.offset + w.readBytes ≤ (s.file w.file).data.length)
    (hold : s.view.HoldsUnder ⟨id, va⟩ w c) {i sp : Nat} (hi : i < w.readBytes)
    (hafter : ((Call.load id ⟨va.toNat + i⟩ sp).outcome s).2.view.HoldsUnder ⟨id, va⟩ w c) :
    match ((Call.load id ⟨va.toNat + i⟩ sp).outcome s).1 with
    | .ok a => a = .byte (Content.byteAt c i)
    | .error f => va.toNat + i = 0 ∨ f.IsShortage ∨ s.view.refuses ⟨id, va⟩ ∧ f = MappingError.refusal := by
  obtain ⟨page, hpage⟩ := hold.page
  obtain ⟨hlive, hfits⟩ := hv.page hpage
  have hadmissible : (Call.load id ⟨va.toNat + i⟩ sp).Admissible s :=
    ⟨fun a ha => (Option.mem_some_iff.1 ha) ▸ hlive, fun _ h => (by cases h), fun _ h => by cases h⟩
  have haligned : va.toNat % pageSize = 0 := hfits.aligned
  have hpageSize : i < pageSize := Nat.lt_of_lt_of_le hi w.readBytes_le
  obtain ⟨hdown, hoffset⟩ := VirtAddr.pageDown_add (by rw [haligned]; omega : va.toNat % pageSize + i < pageSize)
  rw [VirtAddr.pageDown_of_aligned hfits.aligned] at hdown
  have hplace : (⟨va.toNat + i⟩ : VirtAddr).offset = i := by
    change (va.toNat + i) % pageSize = i
    omega
  obtain ⟨_, ds, htrace, hexplains⟩ := exists_explains hs hv hadmissible
  have htells := hexplains.tells
  generalize ((Call.load id ⟨va.toNat + i⟩ sp).outcome s).1 = r at htells ⊢
  simp only [Call.Tells, hdown, hplace] at htells
  cases r with
  | ok a =>
    obtain ⟨b, rfl, ⟨content, ⟨page', pa, hpage', hframe, hcontent⟩, hbyte⟩, _⟩ := htells
    have hbytes := congrArg (·[i]?) (hafter.bytesOf_eq hpage' hframe hcontent)
    simp only [FileWindow.getElem?_bytesOf _ _ hi, Option.some.injEq] at hbytes
    rw [← hbytes, hbyte]
  | error f =>
    obtain hzero | hkernel | hshortage | ⟨v, hupkept, hcannot⟩ | hrefused := htells page hpage
    · exact .inl hzero
    · have huser := hfits.user
      have hkernelBase : kernelBase % pageSize = 0 := rfl
      simp only [pageSize] at *
      omega
    · exact .inr (.inl hshortage)
    · have hserved := (Trace.of_upkept hupkept).served w.file
      have hreadable := (hserved.serves hserves).isReadable hlimit (Nat.le_trans hend hserved.length_le)
      exact absurd hcannot (View.not_cannotFill (hold.window?_eq hpage) hreadable)
    · exact .inr (.inr hrefused)

/-- Both sides of a fork have in a page what it had, if the fork writes nothing to the file behind it, or if the pages
that were written agree. -/
theorem holdsUnder_of_fork (hs : s.WellFormed) (hv : s.view.Sound) (hkeyed : s.view.Keyed)
    (hc : (Call.fork id table).Admissible s) {a : Answer} (hfork : (Call.fork id table).outcome s = (.ok a, t))
    (hserves : (s.file w.file).Serves) (hend : w.offset + w.readBytes ≤ (s.file w.file).data.length)
    (hpos : 0 < w.readBytes) (hold : s.view.HoldsUnder ⟨id, va⟩ w c) (hregion : s.IsOverItsRegion ⟨id, va⟩)
    (hwrites : (t.file w.file).traffic.writes = (s.file w.file).traffic.writes ∨
      s.view.Accords w c ∧ ∀ va', s.IsOverItsRegion ⟨id, va'⟩) (hx : x = id ∨ x = s.nextSpace) :
    t.view.HoldsUnder ⟨x, va⟩ w c := by
  obtain ⟨htable, hentries⟩ := hc.table _ rfl
  have hshares : s.Shares (s.view.Accords w c ∧ ∀ va', s.IsOverItsRegion ⟨id, va'⟩) (s.file w.file).traffic.writes w c
      (· = ⟨id, va⟩) :=
    ⟨Nat.le_refl _, fun _ _ hp => hp ▸ hold, And.left⟩
  have hcopied : Paging.wp (Call.fork id table).run s (fun _ t =>
      t.Shares (s.view.Accords w c ∧ ∀ va', s.IsOverItsRegion ⟨id, va'⟩) (s.file w.file).traffic.writes w c
        fun p => p = ⟨id, va⟩ ∨ p = ⟨s.view.next, va⟩) fun _ _ => True := by
    refine (Paging.wp_bind ..).2 ((Paging.wp_fork_of_shares hs hv (hc.space _ rfl) htable hentries hkeyed hserves hend
      hpos hshares (Option.isSome_iff_exists.2 hold.page) fun va' hva' f hf => ?_).mono (fun _ _ h => h)
      fun _ _ _ => trivial)
    have hover : s.IsOverItsRegion ⟨id, va'⟩ := hva'.elim (·.2 va') (· ▸ hregion)
    obtain ⟨page, hpage, hwindow⟩ := Option.bind_eq_some_iff.1 hf
    exact FileWindow.inRegion_eq_self_iff.2 (hover page hpage f (PageKind.source?_of_window? hwindow))
  refine (hcopied.of_ok (Call.run_of_outcome hfork)).holds hwrites ?_
  obtain rfl | rfl := hx
  · exact .inl rfl
  · exact .inr rfl

/-- After a fork that writes nothing to the file behind a page, or before which the pages that were written over it agree,
each of the two sides sees in that page what it stored there itself, and otherwise what the page had at the fork, as long
as the file is not written, or no other page is written that shares its bytes of the file, or those that were written
agree and nothing is stored in them. -/
theorem Reachable.forked_pages_are_private (h : s.Reachable) (hc : (Call.fork id table).Admissible s) {a : Answer}
    (hfork : (Call.fork id table).outcome s = (.ok a, t)) (hserves : (s.file w.file).Serves)
    (hlimit : w.offset + w.readBytes < Word.limit) (hend : w.offset + w.readBytes ≤ (s.file w.file).data.length)
    (hold : s.view.HoldsUnder ⟨id, va⟩ w c) (hregion : s.IsOverItsRegion ⟨id, va⟩)
    (hwrites : (t.file w.file).traffic.writes = (s.file w.file).traffic.writes ∨
      s.view.Accords w c ∧ ∀ va', s.IsOverItsRegion ⟨id, va'⟩) (hrun : t.Use w.file cs sts u)
    (hx : x = id ∨ x = s.nextSpace) {i : Nat} (hi : i < w.readBytes) (sp : Nat)
    (hprivate : (((Call.load x ⟨va.toNat + i⟩ sp).outcome u).2.file w.file).traffic.writes =
        (t.file w.file).traffic.writes ∨
      t.view.OnlyWriter ⟨x, va⟩ w ∧ (∀ b ∈ cs, b.Spares t.view.windowOf ⟨x, va⟩ w) ∨
      t.view.Accords w c ∧ ∀ b ∈ cs, b.SparesAll t.view.windowOf w) :
    match ((Call.load x ⟨va.toNat + i⟩ sp).outcome u).1 with
    | .ok b => b = .byte ((lastByte? sts ⟨x, va⟩ i).getD (Content.byteAt c i))
    | .error f => va.toNat + i = 0 ∨ f.IsShortage ∨ u.view.refuses ⟨x, va⟩ ∧ f = MappingError.refusal := by
  have ht : t.Reachable := by
    have hcall := h.call hc
    rwa [hfork] at hcall
  have hserved : (s.file w.file).Served (t.file w.file) := by
    obtain ⟨_, ds, htrace, _⟩ := exists_explains h.wellFormed h.sound hc
    rw [hfork] at htrace
    exact htrace.served w.file
  have hserves' := hserved.serves hserves
  have hend' := Nat.le_trans hend hserved.length_le
  have hpos : 0 < w.readBytes := Nat.zero_lt_of_lt hi
  have hold' : t.view.HoldsUnder ⟨x, va⟩ w c :=
    holdsUnder_of_fork h.wellFormed h.sound h.keyed hc hfork hserves hend hpos hold hregion hwrites hx
  obtain ⟨hu, hv⟩ := hrun.wellFormed_and_sound ht.wellFormed ht.sound
  obtain ⟨page, hpage⟩ := Option.isSome_iff_exists.1 (hrun.isSome_pages (Option.isSome_iff_exists.2 hold'.page))
  have hadmissible : (Call.load x ⟨va.toNat + i⟩ sp).Admissible u :=
    ⟨fun a ha => (Option.mem_some_iff.1 ha) ▸ (hv.page hpage).1, fun _ h => (by cases h), fun _ h => by cases h⟩
  obtain ⟨_, ds, htrace, haccounts⟩ := (Paging.performs_accounts hu hv hadmissible).outcome
  have hrun' := hrun.call hadmissible trivial rfl htrace haccounts
  rw [List.prefix_nil.1 haccounts.1.stores, List.append_nil] at hrun'
  have hnowhere (q : PageId) : ¬ (Call.load x ⟨va.toNat + i⟩ sp).Writes q := by
    rintro (⟨st, hst, _⟩ | ⟨_, _, _, hcall, _⟩)
    · cases hst
    · cases hcall
  have hbefore : u.view.HoldsUnder ⟨x, va⟩ w (stored ⟨x, va⟩ c sts) := by
    refine hrun.holdsUnder ht.wellFormed ht.sound hserves' hend' hpos (hprivate.imp_left fun hwrites => ?_) hold'
    have hle := hrun.served.writes_le
    have hload : (u.file w.file).traffic.writes ≤ _ := (htrace.served w.file).writes_le
    exact Nat.le_antisymm (hwrites ▸ hload) hle
  have hafter : ((Call.load x ⟨va.toNat + i⟩ sp).outcome u).2.view.HoldsUnder ⟨x, va⟩ w (stored ⟨x, va⟩ c sts) := by
    refine hrun'.holdsUnder ht.wellFormed ht.sound hserves' hend' hpos (hprivate.imp_right ?_) hold'
    simp only [List.forall_mem_append, List.forall_mem_singleton]
    exact Or.imp (fun honly => ⟨honly.1, honly.2, fun q hq => (hnowhere q hq).elim⟩)
      fun haccords => ⟨haccords.1, haccords.2, fun q hq => (hnowhere q hq).elim⟩
  have hbyte : Content.byteAt (stored ⟨x, va⟩ c sts) i = (lastByte? sts ⟨x, va⟩ i).getD (Content.byteAt c i) := by
    have hinside : i < pageSize := Nat.lt_of_lt_of_le hi w.readBytes_le
    simp only [Content.byteAt, Vector.getElem?_eq_getElem hinside, Option.getD_some, getElem_stored]
  rw [← hbyte]
  exact load_of_holdsUnder hu hv (hrun.served.serves hserves') hlimit (Nat.le_trans hend' hrun.served.length_le) hbefore
    hi hafter

/-- A page of a file of one byte is forked. -/
def oneByte : System := (small { data := [1] }).after [.create, .mmap 0 ⟨0x10000⟩ 1 true 0 0]

def oneByteForked : System := ((Call.fork 0 {}).outcome oneByte).2

theorem reachable_oneByte : oneByte.Reachable := (Reachable.initial (initial_small _)).after (by decide +kernel)

theorem serves_oneByte : (oneByte.file 0).Serves :=
  ⟨⟨by decide +kernel, by decide +kernel, by decide +kernel, by decide +kernel⟩, by decide +kernel⟩

/-- The page is not loaded yet, and has the byte of the file. -/
theorem holdsUnder_oneByte :
    oneByte.view.HoldsUnder ⟨0, ⟨0x10000⟩⟩ (.new 0 0 1) ((FileWindow.new 0 0 1).contentOver [1]) := by
  have hpage : oneByte.view.pages ⟨0, ⟨0x10000⟩⟩ = some (.pending true (.file (.new 0 0 1))) := by decide +kernel
  have hdata : (oneByte.view.file 0).data = [1] := by decide +kernel
  refine .away hpage rfl rfl ?_
  rw [FileWindow.bytesOf_contentOver (by decide)]
  exact congrArg _ hdata

theorem isOverItsRegion_oneByte : oneByte.IsOverItsRegion ⟨0, ⟨0x10000⟩⟩ :=
  map_inRegion_eq_self_iff.1 (by decide +kernel)

theorem fork_oneByte : ∃ a, (Call.fork 0 {}).outcome oneByte = (.ok a, oneByteForked) :=
  fork_of_outcome (by decide +kernel)

/-- Where no page is in a frame, none was written. -/
theorem onlyWriter_of_isEmpty (hv : s.view.Sound) (hempty : s.pager.resident.isEmpty = true) :
    s.view.OnlyWriter p w := by
  rintro q f _ ⟨_, e, _, _, hentry, _⟩
  obtain ⟨page, pa, hpage, hframe, _⟩ := hv.page_of_entry hentry
  have hresident : s.pager.resident.get? pa = some (page.occupant q) := hv.resident_of_frame hpage hframe
  have hnodes : s.pager.resident.nodes = ∅ := Std.ExtTreeMap.isEmpty_iff.1 hempty
  rw [Clock.get?, hnodes, Std.ExtTreeMap.getElem?_empty] at hresident
  cases hresident

/-- The child stores in its page, which makes way for the parent's page and is read back then. -/
theorem exists_forked_pages_are_private : ∃ (s t u : System) (a : Answer) (sts : List Store) (cs : List Call),
    s.Reachable ∧ (Call.fork 0 {}).outcome s = (.ok a, t) ∧
    s.view.HoldsUnder ⟨0, ⟨0x10000⟩⟩ (.new 0 0 1) ((FileWindow.new 0 0 1).contentOver [1]) ∧ t.Use 0 cs sts u ∧
    t.view.OnlyWriter ⟨1, ⟨0x10000⟩⟩ (.new 0 0 1) ∧ (u.file 0).data = [9] ∧
    ((Call.load 1 ⟨0x10000⟩ 0).outcome u).1 = .ok (.byte 9) := by
  obtain ⟨a, hfork⟩ := fork_oneByte
  have ht : oneByteForked.Reachable := by
    have hcall := reachable_oneByte.call (c := .fork 0 {}) (by decide +kernel)
    rwa [hfork] at hcall
  have honly : oneByteForked.view.OnlyWriter ⟨1, ⟨0x10000⟩⟩ (.new 0 0 1) :=
    onlyWriter_of_isEmpty ht.sound (by decide +kernel)
  have hstored := (Use.start (f := 0)).call_ok ht.wellFormed ht.sound (a := .store 1 ⟨0x10000⟩ 0 9)
    (by decide +kernel) trivial (by decide +kernel)
  have hstored' := ht.call (c := .store 1 ⟨0x10000⟩ 0 9) (by decide +kernel)
  have hrun := hstored.call_ok hstored'.wellFormed hstored'.sound (a := .claim 0 ⟨0x10000⟩)
    (by decide +kernel) trivial (by decide +kernel)
  have hspares : ∀ b ∈ [Call.store 1 ⟨0x10000⟩ 0 9, .claim 0 ⟨0x10000⟩],
      b.Spares oneByteForked.view.windowOf ⟨1, ⟨0x10000⟩⟩ (.new 0 0 1) := by
    intro b hb q hwrites hq
    simp only [List.mem_cons, List.not_mem_nil, or_false] at hb
    obtain rfl | rfl := hb
    · obtain ⟨st, hst, rfl⟩ | ⟨_, _, _, hcall, _⟩ := hwrites
      · obtain rfl := List.mem_singleton.1 hst
        exact absurd rfl hq
      · cases hcall
    · obtain ⟨st, hst, _⟩ | ⟨_, _, _, hcall, _⟩ := hwrites
      · cases hst
      · cases hcall
  have hload := Reachable.forked_pages_are_private reachable_oneByte (by decide +kernel) hfork serves_oneByte
    (by decide) (by decide +kernel) holdsUnder_oneByte isOverItsRegion_oneByte (.inl (by decide +kernel)) hrun
    (.inr (by decide +kernel)) (by decide : 0 < 1) 0 (.inr (.inl ⟨honly, hspares⟩))
  refine ⟨_, _, _, a, _, _, reachable_oneByte, hfork, holdsUnder_oneByte, hrun, honly, by decide +kernel, ?_⟩
  have hok : ((Call.load 1 ⟨0x10000⟩ 0).outcome ((Call.claim 0 ⟨0x10000⟩).outcome
      ((Call.store 1 ⟨0x10000⟩ 0 9).outcome oneByteForked).2).2).1.toBool = true := by decide +kernel
  generalize ((Call.load 1 ⟨0x10000⟩ 0).outcome _).1 = r at hok hload ⊢
  cases r with
  | error f => cases hok
  | ok b => exact congrArg Except.ok hload

/-- The parent stores in its page, which makes way for the child's page and leaves its byte in the file: the child, which
stored nothing, sees it. -/
theorem exists_forked_page_shows_store : ∃ (s t u : System) (a : Answer) (sts : List Store) (cs : List Call),
    s.Reachable ∧ (Call.fork 0 {}).outcome s = (.ok a, t) ∧ (s.file 0).Serves ∧
    s.view.HoldsUnder ⟨0, ⟨0x10000⟩⟩ (.new 0 0 1) ((FileWindow.new 0 0 1).contentOver [1]) ∧
    s.IsOverItsRegion ⟨0, ⟨0x10000⟩⟩ ∧ t.Use 0 cs sts u ∧ (∀ c ∈ cs, c.space? = some 0) ∧
    (lastByte? sts ⟨1, ⟨0x10000⟩⟩ 0).getD (Content.byteAt ((FileWindow.new 0 0 1).contentOver [1]) 0) = 1 ∧
    ((Call.load 1 ⟨0x10000⟩ 0).outcome u).1.toOption = some (.byte 9) := by
  obtain ⟨a, hfork⟩ := fork_oneByte
  have ht : oneByteForked.Reachable := by
    have hcall := reachable_oneByte.call (c := .fork 0 {}) (by decide +kernel)
    rwa [hfork] at hcall
  have hrun := (Use.start (f := 0)).call_ok ht.wellFormed ht.sound (a := .store 0 ⟨0x10000⟩ 0 9) (by decide +kernel)
    trivial (by decide +kernel)
  have hspace : ∀ c ∈ [Call.store 0 ⟨0x10000⟩ 0 9], c.space? = some 0 := by decide
  exact ⟨_, _, _, a, _, _, reachable_oneByte, hfork, serves_oneByte, holdsUnder_oneByte, isOverItsRegion_oneByte, hrun,
    hspace, by decide +kernel, by decide +kernel⟩

end System

end DemandPaging
