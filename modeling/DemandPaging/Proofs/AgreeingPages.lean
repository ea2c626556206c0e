import DemandPaging.Proofs.Duplicate
import DemandPaging.Proofs.SharedSteps

/-!
Pages that agree. Where all pages that were written over the same part of a file have the same bytes there, it shows in
none of them which is written back, and a copy of any of them agrees with them too.
-/

namespace DemandPaging

variable {v v' : View} {p : PageId} {w : FileWindow} {c : PageContent} {d : Deed} {ds : List Deed}
  {windows : PageId → Option FileWindow}

/-! ### Steps that store nothing -/

theorem Upkeep.accords (h : Upkeep v v') (hv : v.Sound) (hserves : (v.file w.file).Serves)
    (hend : w.offset + w.readBytes ≤ (v.file w.file).data.length) (haccords : v.Accords w c) : v'.Accords w c :=
  fun q f hwritten => (haccords q f (h.isWritten hwritten)).imp_right
    (h.holdsUnder hv hserves hend (h.part_of_accords hv hserves hend haccords))

/-- Upkeep leaves pages in agreement, and what they have stays where it is or goes into the file. -/
theorem Upkept.accords (h : Upkept v v') (hv : v.Sound) (hserves : (v.file w.file).Serves)
    (hend : w.offset + w.readBytes ≤ (v.file w.file).data.length) (haccords : v.Accords w c) :
    v'.Accords w c ∧ (w.part (v.file w.file).data = w.bytesOf c → w.part (v'.file w.file).data = w.bytesOf c) ∧
      ∀ {p}, v.HoldsUnder p w c → v'.HoldsUnder p w c := by
  induction h with
  | refl => exact ⟨haccords, id, id⟩
  | @tail x y hsteps hstep ih =>
    obtain ⟨haccords', hpart, hold⟩ := ih
    have hv' : x.Sound := Upkept.sound hsteps hv
    have hserved := (Trace.of_upkept hsteps).served w.file
    have hserves' := hserved.serves hserves
    have hend' := Nat.le_trans hend hserved.length_le
    have hpart' := hstep.part_of_accords hv' hserves' hend' haccords'
    exact ⟨hstep.accords hv' hserves' hend' haccords', hpart' ∘ hpart,
      fun hp => hstep.holdsUnder hv' hserves' hend' hpart' (hold hp)⟩

/-- The deed writes in no page that is over one of `windows` and shares bytes under the window `w`, and brings up no page
of a file. -/
def Deed.SparesWindow (windows : PageId → Option FileWindow) (w : FileWindow) : Deed → Prop
  | use q write _ bytes => (write = true → ∀ f, windows q = some f → f.Apart w) ∧ (bytes = [] ∨ write = true)
  | describe _ page => page.kind.window? = none
  | copy _ _ _ => False
  | _ => True

theorem Deed.SparesWindow.writesOnly (h : d.SparesWindow windows w) (p : PageId) : d.WritesOnly windows p w := by
  cases d with
  | use q write start bytes => exact fun hwrite _ => h.1 hwrite
  | _ => exact h

/-- No window of bytes is apart from itself. -/
theorem FileWindow.not_apart_self (hpos : 0 < w.readBytes) : ¬ w.Apart w := fun hapart => by
  have hle := hapart rfl w.offset (Nat.le_refl _) (by omega) (Nat.le_refl _)
  omega

/-- What a deed stores that spares a window is not in a page over it. -/
theorem Deed.SparesWindow.page_ne (h : d.SparesWindow windows w) (hpos : 0 < w.readBytes) (hp : windows p = some w)
    {st : Store} (hst : d.store? = some st) : st.page ≠ p := by
  rintro rfl
  cases d with
  | use q write start bytes =>
    simp only [Deed.store?] at hst
    split at hst
    · cases hst
    next hbytes =>
      obtain rfl := Option.some.inj hst
      exact FileWindow.not_apart_self hpos (h.1 (h.2.resolve_left hbytes) w hp)
  | _ => cases hst

theorem stored_of_forall_ne {sts : List Store} (h : ∀ st ∈ sts, st.page ≠ p) : stored p c sts = c := by
  induction sts with
  | nil => rfl
  | cons st sts ih =>
    rw [stored_cons, show Store.lay p c st = c from if_neg (h st (List.mem_cons_self ..))]
    exact ih fun st' hst' => h st' (List.mem_cons_of_mem _ hst')

theorem View.HoldsUnder.windowOf_eq (h : v.HoldsUnder p w c) : v.windowOf p = some w := by
  obtain ⟨page, hpage⟩ := h.page
  rw [View.windowOf, hpage, Option.bind_some, h.window?_eq hpage]

theorem View.IsWritten.windowOf_eq {f : FileWindow} (h : v.IsWritten p f) : v.windowOf p = some f := by
  obtain ⟨page, _, hpage, hkind, _⟩ := h
  rw [View.windowOf, hpage, Option.bind_some, hkind]
  rfl

/-- A deed that stores nothing under the window shows in no page there. -/
theorem Does.holdsUnder_of_accords (h : Does d v v') (hv : v.Sound) (hserves : (v.file w.file).Serves)
    (hend : w.offset + w.readBytes ≤ (v.file w.file).data.length) (hpos : 0 < w.readBytes)
    (hwindows : v.OverWindows windows) (haccords : v.Accords w c) (hd : d.SparesWindow windows w)
    (hkept : d ≠ .remove p) (hold : v.HoldsUnder p w c) : v'.HoldsUnder p w c := by
  have hstored : stored p c d.store?.toList = c := stored_of_forall_ne fun st hst =>
    hd.page_ne hpos (hwindows p w hold.windowOf_eq) (Option.mem_toList.1 hst)
  have hheld := h.holdsUnder hv hserves hend (h.part_of_accords hv hserves hend haccords) hkept
    (fun write start bytes hd' => (hd' ▸ hd : (Deed.use p write start bytes).SparesWindow windows w).2) hold
  rwa [hstored] at hheld

theorem Does.pages_of_remove (h : Does (.remove p) v v') : v'.pages p = none := by
  cases h with
  | release _ h => rw [h.pages_eq, Function.update_self]
  | lose _ h => rw [h.pages_eq, Function.update_self]

/-- A deed that stores nothing under the window leaves pages in agreement. -/
theorem Does.accords (h : Does d v v') (hv : v.Sound) (hserves : (v.file w.file).Serves)
    (hend : w.offset + w.readBytes ≤ (v.file w.file).data.length) (hpos : 0 < w.readBytes)
    (hwindows : v.OverWindows windows) (haccords : v.Accords w c) (hd : d.SparesWindow windows w) :
    v'.Accords w c := by
  intro q f hwritten
  obtain hbefore | ⟨start, bytes, rfl, hf⟩ | ⟨src, page, rfl⟩ := h.isWritten hwritten
  · refine (haccords q f hbefore).imp_right
      (h.holdsUnder_of_accords hv hserves hend hpos hwindows haccords hd fun hremoved => ?_)
    obtain ⟨page, _, hpage, _⟩ := hwritten
    subst hremoved
    rw [h.pages_of_remove] at hpage
    cases hpage
  · exact .inl (hd.1 rfl f (hwindows q f hf))
  · exact hd.elim

/-- As long as nothing is stored under the window, pages that agree go on to do so, and have what they had. -/
theorem Trace.holdsUnder_of_accords (h : Trace v ds v') (hv : v.Sound) (hserves : (v.file w.file).Serves)
    (hend : w.offset + w.readBytes ≤ (v.file w.file).data.length) (hpos : 0 < w.readBytes)
    (hwindows : v.OverWindows windows) (haccords : v.Accords w c) (hds : ∀ d ∈ ds, d.SparesWindow windows w) :
    v'.Accords w c ∧ v'.OverWindows windows ∧ ∀ {p}, .remove p ∉ ds → v.HoldsUnder p w c → v'.HoldsUnder p w c := by
  induction h with
  | done => exact ⟨haccords, hwindows, fun _ => id⟩
  | @upkeep v x v' ds hstep hrest ih =>
    have hserved := hstep.served w.file
    obtain ⟨haccords', hwindows', hold⟩ := ih (hstep.sound hv) (hserved.serves hserves)
      (Nat.le_trans hend hserved.length_le) (hstep.overWindows hwindows) (hstep.accords hv hserves hend haccords) hds
    exact ⟨haccords', hwindows', fun hkept hp => hold hkept
      (hstep.holdsUnder hv hserves hend (hstep.part_of_accords hv hserves hend haccords) hp)⟩
  | @deed v x v' d ds hdeed hrest ih =>
    have hserved := hdeed.served w.file
    obtain ⟨hd, hrest'⟩ := List.forall_mem_cons.1 hds
    obtain ⟨haccords', hwindows', hold⟩ := ih (hdeed.sound hv) (hserved.serves hserves)
      (Nat.le_trans hend hserved.length_le) (hdeed.overWindows (hd.writesOnly ⟨0, ⟨0⟩⟩) hwindows)
      (hdeed.accords hv hserves hend hpos hwindows haccords hd) hrest'
    refine ⟨haccords', hwindows', fun hkept hp => ?_⟩
    rw [List.mem_cons, not_or] at hkept
    exact hold hkept.2 (hdeed.holdsUnder_of_accords hv hserves hend hpos hwindows haccords hd (Ne.symm hkept.1) hp)

/-! ### Copies -/

theorem PageKind.eq_file_of_inRegion {kind : PageKind} {region : Option Region} {f : FileWindow}
    (h : kind.inRegion region = .file f) : ∃ g, kind = .file g ∧ f = g.inRegion region := by
  cases kind with
  | pending q =>
    cases q with
    | anon source => cases source <;> cases h
    | file g => cases h
  | anon slot => cases h
  | file g => exact ⟨g, rfl, (PageKind.file.inj h).symm⟩

theorem Upkept.isWritten (h : Upkept v v') {q : PageId} {f : FileWindow} (hq : v'.IsWritten q f) : v.IsWritten q f := by
  induction h with
  | refl => exact hq
  | tail _ hstep ih => exact ih (hstep.isWritten hq)

namespace System.CopiesPage

variable {s t : System} {dst src : SpaceId} {va : VirtAddr}

/-- The copy of a page has what the page has, if that stays in the file where it is there. -/
theorem holdsUnder (h : s.CopiesPage dst src va t) (hv : s.view.Sound) (hold : s.view.HoldsUnder ⟨src, va⟩ w c)
    (hregion : w.inRegion ((s.space dst).regionOf? va) = w)
    (hfile : w.part (s.view.file w.file).data = w.bytesOf c → w.part (t.view.file w.file).data = w.bytesOf c) :
    t.view.HoldsUnder ⟨dst, va⟩ w c := by
  obtain ⟨original, horiginal⟩ := hold.page
  have hwindow := hold.window?_eq horiginal
  have hwindow' : (original.kind.inRegion ((s.space dst).regionOf? va)).window? = some w := by
    rw [PageKind.window?_inRegion, hwindow, Option.map_some, hregion]
  cases h with
  | missing hmissing =>
    rw [hmissing] at horiginal
    cases horiginal
  | @bare page hpage hframe _ hview =>
    obtain rfl : page = original := Option.some.inj (hpage.symm.trans horiginal)
    have hpart := hfile (hold.part_of_bare hpage hframe)
    rw [hview] at hpart ⊢
    exact .away (Function.update_self ..) hwindow' rfl hpart
  | @swapped page _ _ _ hpage hkind =>
    obtain rfl : page = original := Option.some.inj (hpage.symm.trans horiginal)
    rw [hkind] at hwindow
    cases hwindow
  | @resident page pa copy content v e hpage hframe _ hcontent hupkept _ _ _ hdirty hview =>
    obtain rfl : page = original := Option.some.inj (hpage.symm.trans horiginal)
    obtain ⟨e', hentry, _⟩ := hv.entry_of_frame hpage hframe
    have hkind' : page.kind.inRegion ((s.space dst).regionOf? va) = .file w := by
      rw [hold.kind_of_frame hpage hframe]
      exact congrArg PageKind.file hregion
    rw [hview] at hfile ⊢
    refine .resident (Function.update_self ..) hkind' rfl (Function.update_self ..) (Function.update_self ..)
      (hold.bytesOf_eq hpage hframe hcontent) fun hclean => hfile (hold.part_of_clean hentry ?_)
    have hentry' : (s.space src).table.entries[va]? = some e' := hentry
    rw [← PageTable.isDirty_eq hentry', ← hdirty, hclean]

/-- The copying of a page leaves the bytes under the window in the file, and what other pages have. -/
theorem keeps (h : s.CopiesPage dst src va t) (hv : s.view.Sound) (hserves : (s.view.file w.file).Serves)
    (hend : w.offset + w.readBytes ≤ (s.view.file w.file).data.length) (haccords : s.view.Accords w c) :
    (w.part (s.view.file w.file).data = w.bytesOf c → w.part (t.view.file w.file).data = w.bytesOf c) ∧
      ∀ {p}, p ≠ ⟨dst, va⟩ → s.view.HoldsUnder p w c → t.view.HoldsUnder p w c := by
  cases h with
  | missing _ hsame => exact hsame ▸ ⟨id, fun _ => id⟩
  | bare _ _ _ hview =>
    rw [hview]
    exact ⟨id, fun hp hold => hold.setPage_of_ne hp _⟩
  | swapped _ _ _ _ hview =>
    rw [hview]
    exact ⟨id, fun hp hold => (hold.setPage_of_ne hp _).of_same rfl rfl rfl rfl⟩
  | resident _ _ _ _ hupkept hheld _ _ _ hview =>
    obtain ⟨_, hpart, hold⟩ := hupkept.accords hv hserves hend haccords
    rw [hview]
    refine ⟨hpart, fun hp hpage => ((hold hpage).setFrame ?_ _).lodge_of_ne hp ..⟩
    exact fun _ _ hpage' hframe' => (hupkept.sound hv).ne_held hpage' hframe' hheld

/-- A page that was written after the copying was so before, or is the copy of one that was. -/
theorem isWritten (h : s.CopiesPage dst src va t) (hv : s.view.Sound) (hfree : s.view.pages ⟨dst, va⟩ = none)
    {q : PageId} {f : FileWindow} (hq : t.view.IsWritten q f) : q ≠ ⟨dst, va⟩ ∧ s.view.IsWritten q f ∨
      q = ⟨dst, va⟩ ∧ ∃ g, s.view.IsWritten ⟨src, va⟩ g ∧ f = g.inRegion ((s.space dst).regionOf? va) := by
  obtain ⟨page', e', hpage', hkind', hentry', hdirty'⟩ := hq
  have hunmapped : s.view.entries ⟨dst, va⟩ = none := hv.entry_eq_none (by rw [hfree]; rintro q ⟨⟩)
  cases h with
  | missing _ hsame =>
    subst hsame
    refine .inl ⟨?_, page', e', hpage', hkind', hentry', hdirty'⟩
    rintro rfl
    rw [hfree] at hpage'
    cases hpage'
  | bare _ _ _ hview =>
    rw [hview] at hpage' hentry'
    have hne : q ≠ ⟨dst, va⟩ := by
      rintro rfl
      exact absurd (hunmapped.symm.trans hentry') (by simp)
    exact .inl ⟨hne, page', e', by simpa [hne] using hpage', hkind', hentry', hdirty'⟩
  | swapped _ _ _ _ hview =>
    rw [hview] at hpage' hentry'
    have hne : q ≠ ⟨dst, va⟩ := by
      rintro rfl
      exact absurd (hunmapped.symm.trans hentry') (by simp)
    exact .inl ⟨hne, page', e', by simpa [hne] using hpage', hkind', hentry', hdirty'⟩
  | @resident page pa copy content v e hpage hframe _ _ hupkept _ _ _ hdirty hview =>
    rw [hview] at hpage' hentry'
    by_cases hne : q = ⟨dst, va⟩
    · subst hne
      obtain rfl : e = e' := by simpa [View.lodge] using hentry'
      obtain rfl : _ = page' := by simpa [View.lodge] using hpage'
      obtain ⟨e', hentry, _⟩ := hv.entry_of_frame hpage hframe
      have hentry' : (s.space src).table.entries[va]? = some e' := hentry
      rw [hdirty', PageTable.isDirty_eq hentry'] at hdirty
      obtain ⟨g, hkind, hg⟩ := PageKind.eq_file_of_inRegion hkind'
      exact .inr ⟨rfl, g, ⟨page, e', hpage, hkind, hentry, hdirty.symm⟩, hg⟩
    · refine .inl ⟨hne, Upkept.isWritten hupkept ⟨page', e', ?_, hkind', ?_, hdirty'⟩⟩
      · simpa [View.lodge, hne] using hpage'
      · simpa [View.lodge, hne] using hentry'

theorem accords (h : s.CopiesPage dst src va t) (hv : s.view.Sound) (hserves : (s.view.file w.file).Serves)
    (hend : w.offset + w.readBytes ≤ (s.view.file w.file).data.length) (hfree : s.view.pages ⟨dst, va⟩ = none)
    (hregion : ∀ f, s.view.windowOf ⟨src, va⟩ = some f → f.inRegion ((s.space dst).regionOf? va) = f)
    (haccords : s.view.Accords w c) : t.view.Accords w c := by
  obtain ⟨hpart, hold⟩ := h.keeps hv hserves hend haccords
  intro q f hwritten
  obtain ⟨hq, hbefore⟩ | ⟨rfl, g, hbefore, rfl⟩ := h.isWritten hv hfree hwritten
  · exact (haccords q f hbefore).imp_right (hold hq)
  · have hg := hregion g hbefore.windowOf_eq
    rw [hg]
    refine (haccords _ g hbefore).imp_right fun hp => h.holdsUnder hv hp ?_ hpart
    obtain rfl : g = w := Option.some.inj (hbefore.windowOf_eq.symm.trans hp.windowOf_eq)
    exact hg

end System.CopiesPage

end DemandPaging
