import DemandPaging.Proofs.AgreeingPages
import DemandPaging.Proofs.ForkedFile

/-!
Pages of files after a fork. Parent and child start with the same bytes if the fork writes nothing to the file, or if the
pages that were written agree on what it writes. They share the file behind their pages from then on: a page that is
written back by one of them is read by the other one.
-/

namespace DemandPaging

open Paging

variable {s t : System} {w : FileWindow} {c : PageContent}

/-- What is known of pages over the window while they are copied. As long as the file was written `n` times, or if `A`,
the pages in `P` have the bytes of `c`; and if `A`, all pages that were written agree on them. -/
structure System.Shares (A : Prop) (n : Nat) (w : FileWindow) (c : PageContent) (P : PageId → Prop) (s : System) :
    Prop where
  writes_le : n ≤ (s.file w.file).traffic.writes
  holds : (s.file w.file).traffic.writes = n ∨ A → ∀ {p}, P p → s.view.HoldsUnder p w c
  accords : A → s.view.Accords w c

namespace System.Shares

variable {A : Prop} {n : Nat} {P : PageId → Prop} {dst src : SpaceId} {va : VirtAddr} {ds : List Deed}

/-- Deeds that concern neither pages nor files leave what is known. -/
theorem trace (h : s.Shares A n w c P) (hv : s.view.Sound) (hserves : (s.file w.file).Serves)
    (hend : w.offset + w.readBytes ≤ (s.file w.file).data.length) (hpos : 0 < w.readBytes)
    (htrace : Trace s.view ds t.view) (hds : ∀ d ∈ ds, d.SparesWindow s.view.windowOf w ∧ d.store? = none ∧
      (∀ q write start bytes, d ≠ .use q write start bytes) ∧ ∀ q, d ≠ .remove q) : t.Shares A n w c P := by
  have hserved : (s.file w.file).Served (t.file w.file) := htrace.served w.file
  have hold := htrace.holdsUnder_of_accords hv hserves hend hpos (fun _ _ => id) (c := c)
  refine ⟨Nat.le_trans h.writes_le hserved.writes_le, fun hor {p} hp => ?_, fun hA =>
    (hold (h.accords hA) fun d hd => (hds d hd).1).1⟩
  have hkept : .remove p ∉ ds := fun hmem => (hds _ hmem).2.2.2 p rfl
  obtain hwrites | hA := hor
  · have hbefore : (s.file w.file).traffic.writes = n := Nat.le_antisymm (hwrites ▸ hserved.writes_le) h.writes_le
    have hheld := htrace.holdsUnder_of_unwritten hv hserves hend (hwrites.trans hbefore.symm) hkept
      (fun write start bytes hmem => absurd rfl ((hds _ hmem).2.2.1 p write start bytes)) (h.holds (.inl hbefore) hp)
    rwa [storesOf_eq_nil fun d hd => (hds d hd).2.1] at hheld
  · exact (hold (h.accords hA) fun d hd => (hds d hd).1).2.2 hkept (h.holds (.inr hA) hp)

/-- When a page is copied, what is known of it is known of its copy. -/
theorem copiesPage (h : s.Shares A n w c P) (hv : s.view.Sound) (hserves : (s.file w.file).Serves)
    (hend : w.offset + w.readBytes ≤ (s.file w.file).data.length) (hfree : s.view.pages ⟨dst, va⟩ = none)
    (hcopies : s.CopiesPage dst src va t) (htrace : Trace s.view ds t.view)
    (hds : ∀ d ∈ ds, ∃ va page, d = .copy ⟨dst, va⟩ ⟨src, va⟩ page)
    (hregion : A ∨ P ⟨src, va⟩ → ∀ f, s.view.windowOf ⟨src, va⟩ = some f →
      f.inRegion ((s.space dst).regionOf? va) = f) :
    t.Shares A n w c fun p => P p ∨ p = ⟨dst, va⟩ ∧ P ⟨src, va⟩ := by
  have hserved : (s.file w.file).Served (t.file w.file) := htrace.served w.file
  have hbefore (hwrites : (t.file w.file).traffic.writes = n) : (s.file w.file).traffic.writes = n :=
    Nat.le_antisymm (hwrites ▸ hserved.writes_le) h.writes_le
  refine ⟨Nat.le_trans h.writes_le hserved.writes_le, fun hor => ?_, fun hA =>
    hcopies.accords hv hserves hend hfree (hregion (.inl hA)) (h.accords hA)⟩
  have hor' := hor.imp_left hbefore
  rintro p (hp | ⟨rfl, hp⟩)
  · have hold := h.holds hor' hp
    obtain hwrites | hA := hor
    · have hheld := htrace.holdsUnder_of_unwritten hv hserves hend (hwrites.trans (hbefore hwrites).symm)
        (fun hmem => by obtain ⟨_, _, hd⟩ := hds _ hmem; cases hd)
        (fun _ _ _ hmem => by obtain ⟨_, _, hd⟩ := hds _ hmem; cases hd) hold
      rwa [storesOf_eq_nil fun d hd => by obtain ⟨_, _, rfl⟩ := hds d hd; rfl] at hheld
    · refine (hcopies.keeps hv hserves hend (h.accords hA)).2 ?_ hold
      rintro rfl
      obtain ⟨page, hpage⟩ := hold.page
      rw [hfree] at hpage
      cases hpage
  · have hold := h.holds hor' hp
    refine hcopies.holdsUnder hv hold (hregion (.inr hp) w hold.windowOf_eq) fun hpart => ?_
    obtain hwrites | hA := hor
    · exact hserved.data_eq (hwrites.trans (hbefore hwrites).symm) ▸ hpart
    · exact (hcopies.keeps hv hserves hend (h.accords hA)).1 hpart

theorem mono {Q : PageId → Prop} (h : s.Shares A n w c P) (hP : ∀ {p}, Q p → P p) : s.Shares A n w c Q :=
  ⟨h.writes_le, fun hor {_} hp => h.holds hor (hP hp), h.accords⟩

end System.Shares

namespace Paging

variable {A : Prop} {n : Nat} {dst src : SpaceId} {va : VirtAddr}

/-- Of the pages that are copied one after the other, the copy of one has what the page has. -/
theorem performs_duplicatePages_of_shares (hs : s.WellFormed) (hv : s.view.Sound) (hlive : s.view.live dst)
    (hserves : (s.file w.file).Serves) (hend : w.offset + w.readBytes ≤ (s.file w.file).data.length)
    {done : Prop} (hshares : s.Shares A n w c fun p => p = ⟨src, va⟩ ∨ p = ⟨dst, va⟩ ∧ done) (hne : src ≠ dst)
    (hregion : ∀ a, A ∨ a = va → ∀ f, s.view.windowOf ⟨src, a⟩ = some f →
      f.inRegion ((s.space dst).regionOf? a) = f) (vas : List VirtAddr) :
    Performs (vas.forM (duplicatePage dst src)) s fun r ds t =>
      (∀ d ∈ ds, ∃ va page, d = .copy ⟨dst, va⟩ ⟨src, va⟩ page) ∧ ∀ u, r = .ok u →
        t.Shares A n w c fun p => p = ⟨src, va⟩ ∨ p = ⟨dst, va⟩ ∧ (done ∨ va ∈ vas) := by
  induction vas generalizing s done with
  | nil => exact performs_pure hs ⟨by simp, fun _ _ => hshares.mono fun hp => by simpa using hp⟩
  | cons a vas ih =>
    have hfirst : Performs (duplicatePage dst src a) s fun r ds t =>
        (∀ d ∈ ds, ∃ va page, d = .copy ⟨dst, va⟩ ⟨src, va⟩ page) ∧ ∀ u, r = .ok u →
          t.Shares A n w c fun p => p = ⟨src, va⟩ ∨ p = ⟨dst, va⟩ ∧ (done ∨ va = a) := by
      have hperforms : Performs (duplicatePage dst src a) s _ := performs_duplicatePage hs hv hlive a
      have hstep : wp (duplicatePage dst src a) s (fun _ t => s.view.pages ⟨dst, a⟩ = none ∧ s.CopiesPage dst src a t)
          fun _ _ => True :=
        wp_duplicatePage hs hv hlive a (fun _ _ hfree hcopies => ⟨hfree, hcopies⟩) fun _ _ _ _ => trivial
      refine wp.mono (hperforms.and hstep) ?_ ?_
      · rintro u t ⟨⟨ht, ds, htrace, hds, _⟩, hfree, hcopies⟩
        refine ⟨ht, ds, htrace, hds, fun _ _ => ?_⟩
        refine (hshares.copiesPage hv hserves hend hfree hcopies htrace hds fun hor => hregion a (hor.imp_right ?_)).mono
          fun hp => ?_
        · rintro (hp | ⟨hp, _⟩)
          · exact congrArg PageId.va hp
          · exact absurd (congrArg PageId.space hp) hne
        · obtain rfl | ⟨rfl, hdone | rfl⟩ := hp
          · exact .inl (.inl rfl)
          · exact .inl (.inr ⟨rfl, hdone⟩)
          · exact .inr ⟨rfl, .inl rfl⟩
      · rintro f t ⟨⟨ht, ds, htrace, hds, _⟩, _⟩
        exact ⟨ht, ds, htrace, hds, fun _ h => by cases h⟩
    change Performs (duplicatePage dst src a >>= fun _ => vas.forM (duplicatePage dst src)) s _
    refine hfirst.bind hv (fun _ ds t ht hv' htrace hr => ?_) fun f ds t hr => ⟨hr.1, fun _ h => by cases h⟩
    obtain ⟨hcopies, hshares'⟩ := hr
    have hserved : (s.file w.file).Served (t.file w.file) := htrace.served w.file
    have hlive' : t.view.live dst := htrace.live (fun d hd => Deed.IsOfCopy.isOnPages (.inr (hcopies d hd))) hlive
    have hregion' (b : VirtAddr) (hb : A ∨ b = va) (f : FileWindow) (hf : t.view.windowOf ⟨src, b⟩ = some f) :
        f.inRegion ((t.space dst).regionOf? b) = f := by
      rw [System.regionOf?_congr fun x => congrFun (regions_eq_of_copies htrace hcopies) ⟨dst, x⟩]
      refine hregion b hb f ?_
      rwa [View.windowOf_eq_natureOf, ← htrace.natureOf_eq fun d hd => ?_, ← View.windowOf_eq_natureOf]
      obtain ⟨_, _, rfl⟩ := hcopies d hd
      exact fun e => hne (congrArg PageId.space e).symm
    refine (ih ht hv' hlive' (hserved.serves hserves) (Nat.le_trans hend hserved.length_le) (hshares' _ rfl)
      hregion').mono fun r es u hr => ⟨fun d hd => (List.mem_append.1 hd).elim (hcopies d) (hr.1 d), fun x hx => ?_⟩
    exact (hr.2 x hx).mono fun hp => by simpa [or_assoc] using hp

/-- A copy of a space into one without regions has in a page over the file of its region what the original has. -/
theorem performs_duplicate_of_shares (hs : s.WellFormed) (hv : s.view.Sound) (hlive : s.view.live dst)
    (hfree : ∀ a, s.view.regions ⟨dst, a⟩ = none) (hkeyed : s.view.Keyed) (hserves : (s.file w.file).Serves)
    (hend : w.offset + w.readBytes ≤ (s.file w.file).data.length) (hpos : 0 < w.readBytes)
    (hshares : s.Shares A n w c (· = ⟨src, va⟩)) (hne : src ≠ dst) (hpage : (s.view.pages ⟨src, va⟩).isSome)
    (hregion : ∀ a, A ∨ a = va → ∀ f, s.view.windowOf ⟨src, a⟩ = some f →
      f.inRegion ((s.space src).regionOf? a) = f) :
    Performs (duplicate dst src) s fun r _ t => ∀ u, r = .ok u →
      t.Shares A n w c fun p => p = ⟨src, va⟩ ∨ p = ⟨dst, va⟩ := by
  refine (performs_duplicate_of hs hv hlive (R := fun t => t.Shares A n w c fun p => p = ⟨src, va⟩ ∨ p = ⟨dst, va⟩)
    (fun _ _ h => ⟨h.1, h.2, h.3⟩) fun _ t ht hv' hlive' htrace hds hregions => ?_).mono fun r ds t hr => hr.2.2
  have hserved : (s.file w.file).Served (t.file w.file) := htrace.served w.file
  have hshares' : t.Shares A n w c (· = ⟨src, va⟩) := by
    refine hshares.trace hv hserves hend hpos htrace fun d hd => ?_
    obtain ⟨va', r, rfl⟩ := hds d hd
    exact ⟨trivial, rfl, fun _ _ _ _ h => (by cases h), fun _ h => by cases h⟩
  have hkey : va ∈ (t.space src).pages.keys := by
    rw [Std.ExtTreeMap.mem_keys, Std.ExtTreeMap.mem_iff_isSome_getElem?]
    exact (htrace.isSome_pages (fun hmem => by obtain ⟨_, _, hd⟩ := hds _ hmem; cases hd) hpage).1
  refine (performs_duplicatePages_of_shares ht hv' hlive' (hserved.serves hserves)
    (Nat.le_trans hend hserved.length_le) (hshares'.mono (Q := fun p => p = ⟨src, va⟩ ∨ p = ⟨dst, va⟩ ∧ False) (by simp))
    hne (fun a ha f hf => ?_) _).mono fun r es u hr => ⟨hr.1, fun x hx => (hr.2 x hx).mono fun hp => by simpa [hkey] using hp⟩
  rw [System.regionOf?_of_inherited hfree hkeyed hregions a]
  refine hregion a ha f ?_
  rwa [View.windowOf_eq_natureOf, ← natureOf_eq_of_inherit htrace hds, ← View.windowOf_eq_natureOf]

/-- Both sides of a fork have in a page over the file of its region what the page had, as long as the file was not
written or, if `A`, the pages that were written agree on what it got. -/
theorem wp_fork_of_shares {id : SpaceId} {table : PageTable} (hs : s.WellFormed) (hv : s.view.Sound)
    (hlive : s.view.live id) (htable : table.Willing) (hentries : table.entries = ∅) (hkeyed : s.view.Keyed)
    (hserves : (s.file w.file).Serves) (hend : w.offset + w.readBytes ≤ (s.file w.file).data.length)
    (hpos : 0 < w.readBytes) (hshares : s.Shares A n w c (· = ⟨id, va⟩)) (hpage : (s.view.pages ⟨id, va⟩).isSome)
    (hregion : ∀ a, A ∨ a = va → ∀ f, s.view.windowOf ⟨id, a⟩ = some f → f.inRegion ((s.space id).regionOf? a) = f) :
    wp (fork id table) s (fun _ t => t.Shares A n w c fun p => p = ⟨id, va⟩ ∨ p = ⟨s.view.next, va⟩)
      fun _ _ => True := by
  have hne : id ≠ s.view.next := Nat.ne_of_lt (hv.fresh hlive)
  unfold fork
  simp only [wp_bind, wp_get]
  refine (performs_create hs hv htable hentries).wp (fun child _ t ht htrace hr => ?_) fun f _ t _ _ _ => trivial
  obtain ⟨hchild, rfl, hview⟩ := hr
  obtain rfl : child = s.view.next := Except.ok.inj hchild
  have hlive' : t.view.live s.view.next := by rw [hview]; exact .inl rfl
  have hsame : t.view.pages = s.view.pages ∧ t.view.regions = s.view.regions := by rw [hview]; exact ⟨rfl, rfl⟩
  have hserved : (s.file w.file).Served (t.file w.file) := htrace.served w.file
  have hshares' : t.Shares A n w c (· = ⟨id, va⟩) := by
    refine hshares.trace hv hserves hend hpos htrace fun d hd => ?_
    obtain rfl := List.mem_singleton.1 hd
    exact ⟨trivial, rfl, fun _ _ _ _ h => (by cases h), fun _ h => by cases h⟩
  simp only [wp_attempt]
  refine (performs_duplicate_of_shares ht (htrace.sound hv) hlive' (fun a => ?_) (fun p r hr => ?_)
    (hserved.serves hserves) (Nat.le_trans hend hserved.length_le) hpos hshares' hne (hsame.1 ▸ hpage)
    fun a ha f hf => ?_).wp (fun _ _ u _ _ hr => hr _ rfl) fun f _ u _ _ _ => ?_
  · rw [hsame.2]
    exact hv.regions_next a
  · rw [hsame.2] at hr
    exact hkeyed p r hr
  · rw [System.regionOf?_congr fun x => congrFun hsame.2 ⟨id, x⟩]
    refine hregion a ha f ?_
    rwa [View.windowOf, ← hsame.1]
  · simp only [wp_bind, wp_modify, wp_throw]
    exact .of_forall (fun _ _ => trivial) fun _ _ => trivial

end Paging

end DemandPaging
