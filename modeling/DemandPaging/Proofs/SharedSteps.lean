import DemandPaging.Proofs.SharedFile

/-!
What upkeep and deeds make of a page that shares its part of a file with others. As long as the file is not written, or
no other page over that part is, the page has what it held with what was stored in it. If others were written, but hold
the same, the page has what it held as long as nothing is stored over that part.
-/

namespace DemandPaging

variable {v v' : View} {p : PageId} {w : FileWindow} {c : PageContent} {d : Deed} {ds : List Deed}

/-! ### One step -/

theorem View.part_readWindow (v : View) (f : FileWindow) :
    w.part ((v.readWindow f).file w.file).data = w.part (v.file w.file).data := by
  rw [View.readWindow, View.file_setFile]
  split
  next hf => rw [(File.read_spec ..).1, hf.1]
  · rfl

/-- Upkeep does not show in a page whose bytes stay in the file if they are there. -/
theorem Upkeep.holdsUnder (h : Upkeep v v') (hv : v.Sound) (hserves : (v.file w.file).Serves)
    (hend : w.offset + w.readBytes ≤ (v.file w.file).data.length)
    (hfile : w.part (v.file w.file).data = w.bytesOf c → w.part (v'.file w.file).data = w.bytesOf c)
    (hold : v.HoldsUnder p w c) : v'.HoldsUnder p w c := by
  cases h with
  | @mark q e e' hentry _ hdirty =>
    refine hold.congr id rfl (fun e'' he => ?_) fun _ _ _ _ => rfl
    by_cases hq : p = q
    · subst hq
      obtain rfl := Option.some.inj (hentry.symm.trans he)
      exact ⟨e', Function.update_self .., hdirty⟩
    · exact ⟨e'', (Function.update_of_ne hq ..).trans he, rfl⟩
  | read f => exact hold.congr hfile rfl (fun e he => ⟨e, he, rfl⟩) fun _ _ _ _ => rfl
  | failToWrite _ _ _ _ _ _ hwrite => exact hold.of_failedToWrite hwrite hfile
  | take _ hfree =>
    exact (hold.setFrame (fun _ _ hpage hframe => hv.ne_free hpage hframe hfree) _).of_same rfl rfl rfl rfl
  | scribble hheld content => exact hold.setFrame (fun _ _ hpage hframe => hv.ne_held hpage hframe hheld) _
  | giveUp hheld =>
    exact (hold.setFrame (fun _ _ hpage hframe => hv.ne_held hpage hframe hheld) _).of_same rfl rfl rfl rfl
  | @swapOut q page pa slot content _ hpage hkind =>
    refine (hold.vacate_of_ne ?_ pa _).of_same rfl rfl rfl rfl
    rintro rfl
    have hwindow := hold.window?_eq hpage
    rw [hkind] at hwindow
    cases hwindow
  | @dropClean q page f pa e _ hpage hkind hframe hentry hdirty =>
    by_cases hq : p = q
    · subst hq
      have hwindow := hold.window?_eq hpage
      have hvacated : (v.vacate p pa (some { page with frame := none })).pages p = some { page with frame := none } := by
        simp [View.vacate]
      exact .away hvacated hwindow rfl (hold.part_of_clean hentry hdirty)
    · exact hold.vacate_of_ne hq ..
  | @writeBack v₁ q page f pa e content _ hpage hkind hframe hentry hdirty hcontent hwrite =>
    by_cases hq : p = q
    · subst hq
      have hwindow := hold.window?_eq hpage
      obtain rfl := Option.some.inj ((congrArg PageKind.window? hkind).symm.trans hwindow)
      have hvacated : (v₁.vacate p pa (some { page with frame := none })).pages p = some { page with frame := none } := by
        simp [View.vacate]
      exact .away hvacated hwindow rfl ((hwrite.part_eq_bytesOf hserves (hv.window_lt_limit hpage hkind) hend).trans
        (hold.bytesOf_eq hpage hframe hcontent))
    · exact (hold.of_wroteBack hwrite hfile).vacate_of_ne hq ..

/-- Upkeep leaves the bytes under the window in the file if all pages that were written agree on them. -/
theorem Upkeep.part_of_accords (h : Upkeep v v') (hv : v.Sound) (hserves : (v.file w.file).Serves)
    (hend : w.offset + w.readBytes ≤ (v.file w.file).data.length) (haccords : v.Accords w c)
    (hpart : w.part (v.file w.file).data = w.bytesOf c) : w.part (v'.file w.file).data = w.bytesOf c := by
  cases h with
  | read f => exact (v.part_readWindow f).trans hpart
  | failToWrite hpage hkind hframe hentry hdirty _ hwrite =>
    exact haccords.part_of_failedToWrite hv hserves hend hpage hkind hframe hentry hdirty hwrite hpart
  | writeBack _ hpage hkind hframe hentry hdirty hcontent hwrite =>
    have hwritten := haccords.part_of_wroteBack hv hserves hend hpage hkind hframe hentry hdirty hcontent hwrite hpart
    exact hwritten
  | _ => exact hpart

theorem View.Fills.part_eq {kind kind' : PageKind} {content : PageContent} (h : v.Fills kind content kind' v') :
    w.part (v'.file w.file).data = w.part (v.file w.file).data := by
  cases h with
  | source => exact v.part_readWindow _
  | first => exact v.part_readWindow _
  | again => exact v.part_readWindow _
  | _ => rfl

/-- A page that is loaded has what the file has, which is what it held. -/
theorem View.Loads.holdsUnder {q : PageId} {pa : PhysAddr} {fresh : Option PageContent} (h : v.Loads q pa fresh v')
    (hv : v.Sound) (hend : w.offset + w.readBytes ≤ (v.file w.file).data.length) (hold : v.HoldsUnder p w c) :
    v'.HoldsUnder p w c := by
  cases h with
  | @load page content kind v₁ hheld hpage hframe _ hfills =>
    have hpart : w.part (v₁.file w.file).data = w.part (v.file w.file).data := hfills.part_eq
    have hsame := hfills.same
    by_cases hq : p = q
    · subst hq
      obtain ⟨rfl, rfl⟩ := hfills.window?_eq.2 w (hold.window?_eq hpage)
      have hbytes := hold.part_of_bare hpage hframe
      set u := (v₁.setFrame pa (some (w.contentOver (v.file w.file).data))).lodge p pa
        { page with kind := .file w, frame := some pa } ⟨pa, .ofPermission (.userPage page.writable)⟩ with hu
      have hlodged : u.pages p = some { page with kind := .file w, frame := some pa } := by simp [hu, View.lodge]
      have hmapped : u.entries p = some ⟨pa, .ofPermission (.userPage page.writable)⟩ := by simp [hu, View.lodge]
      refine .resident hlodged rfl rfl hmapped (Function.update_self ..) ?_ fun _ => ?_
      · rw [FileWindow.bytesOf_contentOver hend, hbytes]
      · exact hpart.trans hbytes
    · refine hold.congr hpart.trans ?_ (fun e he => ⟨e, ?_, rfl⟩) fun page' pa' hpage' hframe' => ?_
      · rw [hsame]
        simp [View.lodge, hq]
      · rw [hsame]
        simpa [View.lodge, hq] using he
      · rw [hsame]
        simp [View.lodge, Function.update_of_ne (hv.ne_held hpage' hframe' hheld)]

/-- A page that is used holds what was stored in it. -/
theorem View.Uses.holdsUnder {q : PageId} {write : Bool} {start : Nat} {bytes : Bytes}
    (h : v.Uses q write start bytes v') (hv : v.Sound) (hdeclared : q = p → bytes = [] ∨ write = true)
    (hold : v.HoldsUnder p w c) : v'.HoldsUnder p w (Store.lay p c ⟨q, start, bytes⟩) := by
  cases h with
  | @use page pa e content hpage hframe hentry hcontent =>
    by_cases hq : q = p
    · subst hq
      have hkind := hold.kind_of_frame hpage hframe
      have hlay (content : PageContent) : Store.lay q content ⟨q, start, bytes⟩ =
          Content.overlay content start bytes := if_pos rfl
      refine .resident hpage hkind hframe (Function.update_self ..) (Function.update_self ..) ?_ fun hdirty => ?_
      · rw [← hlay content]
        exact FileWindow.bytesOf_lay (hold.bytesOf_eq hpage hframe hcontent) _ q
      · simp only [Bool.or_eq_false_iff] at hdirty
        obtain rfl | hwrite := hdeclared rfl
        · have hnil : Content.overlay c start [] = c := by simp
          rw [hlay, hnil]
          exact hold.part_of_clean hentry hdirty.1
        · rw [hdirty.2] at hwrite
          cases hwrite
    · rw [show Store.lay p c ⟨q, start, bytes⟩ = c from if_neg hq]
      refine hold.congr id rfl (fun e he => ⟨e, ?_, rfl⟩) fun page' pa' hpage' hframe' => ?_
      · exact (Function.update_of_ne (Ne.symm hq) ..).trans he
      · refine Function.update_of_ne (fun hpa => hq ?_) ..
        exact hv.eq_of_frame hpage hframe hpage' (hpa ▸ hframe')

/-- A deed that does not remove the page shows in it only by what it stores there. -/
theorem Does.holdsUnder (h : Does d v v') (hv : v.Sound) (hserves : (v.file w.file).Serves)
    (hend : w.offset + w.readBytes ≤ (v.file w.file).data.length)
    (hfile : w.part (v.file w.file).data = w.bytesOf c → w.part (v'.file w.file).data = w.bytesOf c)
    (hkept : d ≠ .remove p)
    (hdeclared : ∀ write start bytes, d = .use p write start bytes → bytes = [] ∨ write = true)
    (hold : v.HoldsUnder p w c) : v'.HoldsUnder p w (stored p c d.store?.toList) := by
  have hne {q : PageId} (hq : v.pages q = none) : p ≠ q := by
    obtain ⟨page, hpage⟩ := hold.page
    rintro rfl
    rw [hq] at hpage
    cases hpage
  cases h with
  | load h => exact h.holdsUnder hv hend hold
  | @use q write start bytes _ _ h =>
    have hused := h.holdsUnder hv (fun hq => hdeclared write start bytes (hq ▸ rfl)) hold
    by_cases hbytes : bytes = []
    · subst hbytes
      simpa [Deed.store?, Store.lay] using hused
    · simpa [Deed.store?, hbytes] using hused
  | describe h => cases h with | describe _ hfree => exact hold.setPage_of_ne (hne hfree) _
  | copy h =>
    have hq := hne h.pages_eq_none
    cases h with
    | resident hheld =>
      exact (hold.setFrame (fun _ _ hpage hframe => hv.ne_held hpage hframe hheld) _).lodge_of_ne hq ..
    | swapped => exact (hold.setPage_of_ne hq _).of_same rfl rfl rfl rfl
    | bare => exact hold.setPage_of_ne hq _
  | @release q _ _ _ h =>
    have hq : p ≠ q := fun e => hkept (e ▸ rfl)
    cases h with
    | resident hpage hframe hwrite =>
      obtain ⟨rfl, _⟩ | ⟨f, e, content, hkind, hentry, hdirty, _, hwrite⟩ := hwrite
      · exact hold.release_of_ne hv hq hpage hframe
      · exact (hold.of_wroteBack hwrite hfile).release_of_ne (hwrite.sound hv) hq (hwrite.same.1 ▸ hpage) hframe
    | swapped => exact (hold.setPage_of_ne hq _).of_same rfl rfl rfl rfl
    | bare => exact hold.setPage_of_ne hq _
  | @lose q _ _ _ h =>
    have hq : p ≠ q := fun e => hkept (e ▸ rfl)
    cases h with
    | @lose _ page f pa e content hpage hframe hkind hentry hdirty _ hwrite =>
      exact (hold.of_failedToWrite hwrite hfile).release_of_ne (hwrite.sound hv) hq (hwrite.same.1 ▸ hpage) hframe
  | takeBack _ hlent =>
    exact (hold.setFrame (fun _ _ hpage hframe => hv.ne_lent hpage hframe hlent) none).of_same rfl rfl rfl rfl
  | _ => exact hold.of_same rfl rfl rfl rfl

/-- A deed leaves the bytes under the window in the file if all pages that were written agree on them. -/
theorem Does.part_of_accords (h : Does d v v') (hv : v.Sound) (hserves : (v.file w.file).Serves)
    (hend : w.offset + w.readBytes ≤ (v.file w.file).data.length) (haccords : v.Accords w c)
    (hpart : w.part (v.file w.file).data = w.bytesOf c) : w.part (v'.file w.file).data = w.bytesOf c := by
  cases h with
  | load h => cases h with | load _ _ _ _ hfills => exact hfills.part_eq.trans hpart
  | use h => cases h; exact hpart
  | describe h => cases h; exact hpart
  | copy h => cases h <;> exact hpart
  | release _ h =>
    cases h with
    | resident hpage hframe hwrite =>
      obtain ⟨rfl, _⟩ | ⟨f, e, content, hkind, hentry, hdirty, hcontent, hwrite⟩ := hwrite
      · exact hpart
      · have hwritten :=
          haccords.part_of_wroteBack hv hserves hend hpage hkind hframe hentry hdirty hcontent hwrite hpart
        exact hwritten
    | swapped => exact hpart
    | bare => exact hpart
  | lose _ h =>
    cases h with
    | lose hpage hframe hkind hentry hdirty _ hwrite =>
      have hstopped := haccords.part_of_failedToWrite hv hserves hend hpage hkind hframe hentry hdirty hwrite hpart
      exact hstopped
  | _ => exact hpart

/-! ### Which pages are written -/

/-- The deed writes in no page that is over one of `windows` and shares bytes under the window `w`, but perhaps in that
at `p`, and brings up no page of a file. -/
def Deed.WritesOnly (windows : PageId → Option FileWindow) (p : PageId) (w : FileWindow) : Deed → Prop
  | use q write _ _ => write = true → q ≠ p → ∀ f, windows q = some f → f.Apart w
  | describe _ page => page.kind.window? = none
  | copy _ _ _ => False
  | _ => True

/-- Each page over a window is over that of `windows`. -/
def View.OverWindows (v : View) (windows : PageId → Option FileWindow) : Prop :=
  ∀ q f, v.windowOf q = some f → windows q = some f

variable {windows : PageId → Option FileWindow}

/-- Upkeep writes in no page. -/
theorem Upkeep.isWritten (h : Upkeep v v') {q : PageId} {f : FileWindow} (hq : v'.IsWritten q f) : v.IsWritten q f := by
  have hvacate {u : View} (hpages : u.pages = v.pages) (hentries : u.entries = v.entries) (r : PageId) (pa : PhysAddr)
      (page : Option PageEntry) (hwritten : (u.vacate r pa page).IsWritten q f) : v.IsWritten q f := by
    obtain ⟨page', e, hpage, hkind, hentry, hdirty⟩ := hwritten
    by_cases hr : q = r
    · simp [View.vacate, hr] at hentry
    · exact ⟨page', e, by simpa [View.vacate, hr, hpages] using hpage, hkind,
        by simpa [View.vacate, hr, hentries] using hentry, hdirty⟩
  cases h with
  | @mark r e e' hentry' _ hdirty' =>
    obtain ⟨page, e'', hpage, hkind, hentry, hdirty⟩ := hq
    by_cases hr : q = r
    · subst hr
      obtain rfl : e' = e'' := by simpa using hentry
      exact ⟨page, e, hpage, hkind, hentry', hdirty' ▸ hdirty⟩
    · exact ⟨page, e'', hpage, hkind, by simpa [hr] using hentry, hdirty⟩
  | failToWrite _ _ _ _ _ _ hwrite => cases hwrite; exact hq
  | swapOut => exact hvacate rfl rfl _ _ _ hq
  | dropClean => exact hvacate rfl rfl _ _ _ hq
  | @writeBack u r _ _ pa _ _ _ _ _ _ _ _ _ hwrite =>
    have hentries : u.entries = v.entries := by cases hwrite <;> rfl
    exact hvacate hwrite.same.1 hentries r pa _ hq
  | _ => exact hq

/-- A page is written if it was before, or if it is used so, or is a copy. -/
theorem Does.isWritten (h : Does d v v') {q : PageId} {f : FileWindow} (hq : v'.IsWritten q f) :
    v.IsWritten q f ∨ (∃ start bytes, d = .use q true start bytes ∧ v.windowOf q = some f) ∨
      ∃ src page, d = .copy q src page := by
  have hpages {u : View} {r : PageId} (hpages : u.pages = Function.update v.pages r none)
      (hentries : ∀ e, u.entries q = some e → v.entries q = some e) (hwritten : u.IsWritten q f) : v.IsWritten q f := by
    obtain ⟨page, e, hpage, hkind, hentry, hdirty⟩ := hwritten
    rw [hpages, Function.update_apply] at hpage
    split at hpage
    · cases hpage
    · exact ⟨page, e, hpage, hkind, hentries e hentry, hdirty⟩
  have hvacate {u : View} (hentries : u.entries = v.entries) (r : PageId) (e : PageTableEntry)
      (h : Function.update u.entries r none q = some e) : v.entries q = some e := by
    rw [Function.update_apply] at h
    split at h
    · cases h
    · exact hentries ▸ h
  have hentry_of {u u' : View} {g : FileWindow} {content : PageContent} (hwrite : u.WroteBack g content u') :
      u'.entries = u.entries := by cases hwrite <;> rfl
  cases h with
  | @load r _ _ _ _ h =>
    obtain ⟨page', e, hpage', hkind', hentry, hdirty⟩ := hq
    cases h with
    | load _ hpage _ _ hfills =>
      by_cases hr : q = r
      · rw [hfills.same] at hentry
        obtain rfl : _ = e := by simpa [View.lodge, hr] using hentry
        cases hdirty
      · rw [hfills.same] at hentry hpage'
        exact .inl ⟨page', e, by simpa [View.lodge, hr] using hpage', hkind', by simpa [View.lodge, hr] using hentry,
          hdirty⟩
  | @use r write start bytes _ _ h =>
    obtain ⟨page', e', hpage', hkind', hentry', hdirty'⟩ := hq
    cases h with
    | @use page pa e content hpage _ hentry _ =>
      by_cases hr : q = r
      · subst hr
        obtain rfl : _ = e' := by simpa using hentry'
        rw [Bool.or_eq_true] at hdirty'
        obtain hdirty | rfl := hdirty'
        · exact .inl ⟨page', e, hpage', hkind', hentry, hdirty⟩
        · refine .inr (.inl ⟨start, bytes, rfl, ?_⟩)
          have hsame : v.pages q = some page' := hpage'
          rw [View.windowOf, hsame, Option.bind_some, hkind']
          rfl
      · exact .inl ⟨page', e', hpage', hkind', by simpa [hr] using hentry', hdirty'⟩
  | @describe r page _ _ h =>
    obtain ⟨page', e, hpage', hkind', hentry, hdirty⟩ := hq
    cases h with
    | describe =>
      by_cases hr : q = r
      · subst hr
        obtain rfl : _ = page' := by simpa using hpage'
        cases hkind'
      · exact .inl ⟨page', e, by simpa [hr] using hpage', hkind', hentry, hdirty⟩
  | @copy r src page _ _ h =>
    by_cases hr : q = r
    · subst hr
      exact .inr (.inr ⟨src, page, rfl⟩)
    · obtain ⟨page', e, hpage', hkind', hentry, hdirty⟩ := hq
      refine .inl ⟨page', e, ?_, hkind', ?_, hdirty⟩
      · cases h <;> simpa [View.lodge, hr] using hpage'
      · cases h <;> simpa [View.lodge, hr] using hentry
  | release _ h =>
    refine .inl (hpages h.pages_eq (fun e he => ?_) hq)
    cases h with
    | resident _ _ hwrite =>
      obtain ⟨rfl, _⟩ | ⟨g, _, content, _, _, _, _, hwrite⟩ := hwrite
      · exact hvacate rfl _ e he
      · exact hvacate (hentry_of hwrite) _ e he
    | swapped => exact he
    | bare => exact he
  | lose _ h =>
    refine .inl (hpages h.pages_eq (fun e he => ?_) hq)
    cases h with
    | lose _ _ _ _ _ _ hwrite =>
      cases hwrite
      exact hvacate rfl _ e he
  | _ => exact .inl hq

theorem Upkeep.overWindows (h : Upkeep v v') (hwindows : v.OverWindows windows) : v'.OverWindows windows := by
  intro q f hf
  refine hwindows q f ?_
  rwa [View.windowOf_eq_natureOf, ← h.natureOf_eq, ← View.windowOf_eq_natureOf]

theorem Does.overWindows (h : Does d v v') (hd : d.WritesOnly windows p w) (hwindows : v.OverWindows windows) :
    v'.OverWindows windows := by
  intro q f hf
  by_cases habout : d.IsAbout q
  · cases h with
    | @load r _ _ _ _ h =>
      obtain rfl := habout
      cases h with
      | load _ hpage _ _ hfills =>
        refine hwindows _ f ?_
        rw [View.windowOf, hpage, Option.bind_some, ← hfills.window?_eq.1]
        rw [hfills.same] at hf
        simpa [View.windowOf, View.lodge] using hf
    | @describe r page _ _ h =>
      obtain rfl := habout
      cases h with
      | describe =>
        have hnone := hd
        simp only [Deed.WritesOnly] at hnone
        simp [View.windowOf, hnone] at hf
    | copy => exact hd.elim
    | release _ h =>
      obtain rfl := habout
      simp [View.windowOf, h.pages_eq] at hf
    | lose _ h =>
      obtain rfl := habout
      simp [View.windowOf, h.pages_eq] at hf
    | _ => exact habout.elim
  · refine hwindows q f ?_
    rwa [View.windowOf_eq_natureOf, ← h.natureOf_eq habout, ← View.windowOf_eq_natureOf]

theorem Does.onlyWriter (h : Does d v v') (hd : d.WritesOnly windows p w) (hwindows : v.OverWindows windows)
    (honly : v.OnlyWriter p w) : v'.OnlyWriter p w := by
  intro q f hq hwritten
  obtain hbefore | ⟨start, bytes, rfl, hf⟩ | ⟨src, page, rfl⟩ := h.isWritten hwritten
  · exact honly q f hq hbefore
  · exact hd rfl hq f (hwindows q f hf)
  · exact hd.elim

/-! ### Any number of steps -/

/-- A page holds what was stored in it last, as long as nothing is written to its file. -/
theorem Trace.holdsUnder_of_unwritten (h : Trace v ds v') (hv : v.Sound) (hserves : (v.file w.file).Serves)
    (hend : w.offset + w.readBytes ≤ (v.file w.file).data.length)
    (hwrites : (v'.file w.file).traffic.writes = (v.file w.file).traffic.writes) (hkept : .remove p ∉ ds)
    (hdeclared : ∀ write start bytes, .use p write start bytes ∈ ds → bytes = [] ∨ write = true)
    (hold : v.HoldsUnder p w c) : v'.HoldsUnder p w (stored p c (storesOf ds)) := by
  induction h generalizing c with
  | done => exact hold
  | @upkeep v x v' ds hstep hrest ih =>
    have hserved := hstep.served w.file
    have hwrites' := (hrest.served w.file).writes_le
    have hle := hserved.writes_le
    have hdata := hserved.data_eq (by omega)
    exact ih (hstep.sound hv) (hserved.serves hserves) (hdata ▸ hend) (by omega) hkept hdeclared
      (hstep.holdsUnder hv hserves hend (fun hpart => hdata ▸ hpart) hold)
  | @deed v x v' d ds hdeed hrest ih =>
    have hserved := hdeed.served w.file
    have hwrites' := (hrest.served w.file).writes_le
    have hle := hserved.writes_le
    have hdata := hserved.data_eq (by omega)
    rw [List.mem_cons, not_or] at hkept
    have hstep := hdeed.holdsUnder hv hserves hend (fun hpart => hdata ▸ hpart) (Ne.symm hkept.1)
      (fun write start bytes hd => hdeclared write start bytes (hd ▸ List.mem_cons_self ..)) hold
    have hlater := ih (hdeed.sound hv) (hserved.serves hserves) (hdata ▸ hend) (by omega) hkept.2
      (fun write start bytes hd => hdeclared write start bytes (List.mem_cons_of_mem _ hd)) hstep
    rwa [storesOf_cons, stored_append]

/-- A page holds what was stored in it last, as long as no other one is written that shares its bytes of the file. -/
theorem Trace.holdsUnder_of_onlyWriter (h : Trace v ds v') (hv : v.Sound) (hserves : (v.file w.file).Serves)
    (hend : w.offset + w.readBytes ≤ (v.file w.file).data.length) (hwindows : v.OverWindows windows)
    (honly : v.OnlyWriter p w) (hds : ∀ d ∈ ds, d.WritesOnly windows p w) (hkept : .remove p ∉ ds)
    (hdeclared : ∀ write start bytes, .use p write start bytes ∈ ds → bytes = [] ∨ write = true)
    (hold : v.HoldsUnder p w c) :
    v'.HoldsUnder p w (stored p c (storesOf ds)) ∧ v'.OverWindows windows ∧ v'.OnlyWriter p w := by
  induction h generalizing c with
  | done => exact ⟨hold, hwindows, honly⟩
  | @upkeep v x v' ds hstep hrest ih =>
    have hserved := hstep.served w.file
    exact ih (hstep.sound hv) (hserved.serves hserves) (Nat.le_trans hend hserved.length_le)
      (hstep.overWindows hwindows) (fun q f hq hwritten => honly q f hq (hstep.isWritten hwritten)) hds hkept hdeclared
      (hstep.holdsUnder hv hserves hend (hstep.part_of_accords hv hserves hend (hold.accords honly)) hold)
  | @deed v x v' d ds hdeed hrest ih =>
    have hserved := hdeed.served w.file
    rw [List.mem_cons, not_or] at hkept
    obtain ⟨hd, hrest'⟩ := List.forall_mem_cons.1 hds
    have hpart := hdeed.part_of_accords hv hserves hend (hold.accords honly)
    have hstep := hdeed.holdsUnder hv hserves hend hpart (Ne.symm hkept.1)
      (fun write start bytes hd => hdeclared write start bytes (hd ▸ List.mem_cons_self ..)) hold
    have hlater := ih (hdeed.sound hv) (hserved.serves hserves) (Nat.le_trans hend hserved.length_le)
      (hdeed.overWindows hd hwindows) (hdeed.onlyWriter hd hwindows honly) hrest' hkept.2
      (fun write start bytes hd => hdeclared write start bytes (List.mem_cons_of_mem _ hd)) hstep
    rwa [storesOf_cons, stored_append]

end DemandPaging
