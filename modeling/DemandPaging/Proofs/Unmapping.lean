import DemandPaging.Proofs.CallFailures
import DemandPaging.Proofs.WriteBack

/-!
Unmapping and teardown, whatever fails. Every page that is to go away does, with what it owned. Each page that was
written is written to its file once, and no other page is; a write that fails keeps none of the others from being
made.
-/

namespace DemandPaging

open Paging

/-- The byte at `k` of the file `g` is under the window. -/
def FileWindow.Covers (f : FileWindow) (g : FileId) (k : Nat) : Prop :=
  f.file = g ∧ f.offset ≤ k ∧ k < f.offset + f.readBytes

/-- The file after its bytes under the window were to be replaced by those of the page, whether or not that
succeeded. -/
def FileWindow.attempt (f : FileWindow) (content : PageContent) (file : File) : File :=
  match File.write f.offset (f.bytesOf content) file with
  | .ok _ file => file
  | .error _ file => file

/-- The page is written to its file, or that is tried. -/
def Parting.tries : Parting → Bool
  | missing | clean => false
  | written | lost _ => true

/-- The pages that are written to their files, or for which that is tried. -/
def tried (l : List (PageId × Parting)) : List PageId := (l.filter (·.2.tries)).map Prod.fst

namespace View

/-- What is at `p` goes away as the parting says: it is written to its file if it is a page that was written. -/
def Meets (v : View) (p : PageId) : Parting → Prop
  | .missing => v.pages p = none
  | .clean => (v.pages p).isSome ∧ ∀ f content, ¬ v.IsDirty p f content
  | .written | .lost _ => ∃ f content, v.IsDirty p f content

/-- The files of `w` are those of `v` after these attempts to write pages to them, and no others. -/
def Attempts (v : View) (ws : List (PageId × FileWindow × PageContent)) (w : View) : Prop :=
  ∀ g, (v.files g).isSome →
    w.file g = ws.foldl (fun file x => if x.2.1.file = g then x.2.1.attempt x.2.2 file else file) (v.file g)

/-- The pages in the list went away one after the other, each of them as it says there. -/
structure Disposes (v : View) (l : List (PageId × Parting)) (w : View) : Prop where
  steps : v.Leaves l w
  /-- Their frames, slots and hardware entries are free, and everything else is as it was. -/
  freed : v.Freed (· ∈ l.map Prod.fst) w
  /-- Which of them were written to their files is told from what there was in the beginning. -/
  met : ∀ {l₁ p parting l₂}, l = l₁ ++ (p, parting) :: l₂ →
    if p ∈ l₁.map Prod.fst then parting = .missing else v.Meets p parting
  /-- There was one attempt for each of those that were written, in this order, and none for the others. -/
  attempts : (tried l).Nodup ∧
    ∃ ws, ws.map Prod.fst = tried l ∧ (∀ x ∈ ws, v.IsDirty x.1 x.2.1 x.2.2) ∧ v.Attempts ws w
  /-- The bytes of a page that was written to its file are there, but for those that one of the next pages put in
  their place. -/
  saved : v.Truthful → ∀ {l₁ p l₂ f content k}, l = l₁ ++ (p, .written) :: l₂ → v.IsDirty p f content →
    (v.files f.file).isSome → k < f.readBytes →
    (∀ q ∈ l₂.map Prod.fst, ∀ f' content', v.IsDirty q f' content' → ¬ f'.Covers f.file (f.offset + k)) →
    (w.file f.file).data[f.offset + k]? = some (Content.byteAt content k)

variable {u v w : View} {p : PageId} {P : PageId → Prop} {f : FileWindow} {content : PageContent} {parting : Parting}
  {l l' : List (PageId × Parting)} {gives : FileWindow → PageContent → Prop}

/-! ### Dirty pages -/

/-- A page that is kept is dirty if it was. -/
theorem Freed.isDirty_iff (h : v.Freed P w) (hv : v.Sound) (hp : ¬ P p) :
    w.IsDirty p f content ↔ v.IsDirty p f content := by
  obtain ⟨hpages, hentries⟩ := h.kept hp
  have hframes {page : PageEntry} {pa : PhysAddr} (hpage : v.pages p = some page) (hframe : page.frame = some pa) :
      w.frames pa = v.frames pa := by
    refine h.frame_kept fun hhas => ?_
    obtain ⟨q, page', hq, hpage', hframe'⟩ := hhas
    exact hp (hv.eq_of_frame hpage hframe hpage' hframe' ▸ hq)
  constructor
  · rintro ⟨page, pa, e, hpage, hkind, hframe, hentry, hdirty, hcontent⟩
    have hpage' := hpages.symm.trans hpage
    exact ⟨page, pa, e, hpage', hkind, hframe, hentries.symm.trans hentry, hdirty,
      (hframes hpage' hframe).symm.trans hcontent⟩
  · rintro ⟨page, pa, e, hpage, hkind, hframe, hentry, hdirty, hcontent⟩
    exact ⟨page, pa, e, hpages.trans hpage, hkind, hframe, hentries.trans hentry, hdirty,
      (hframes hpage hframe).trans hcontent⟩

theorem IsDirty.isSome (h : v.IsDirty p f content) : (v.pages p).isSome := by
  obtain ⟨page, pa, e, hpage, -⟩ := h
  exact Option.isSome_of_eq_some hpage

/-- A page that has gone is not dirty. -/
theorem Freed.not_isDirty (h : v.Freed P w) (hp : P p) : ¬ w.IsDirty p f content := fun hdirty => by
  have hsome := hdirty.isSome
  rw [(h.gone hp).1] at hsome
  cases hsome

theorem Freed.meets_iff (h : v.Freed P w) (hv : v.Sound) (hp : ¬ P p) : w.Meets p parting ↔ v.Meets p parting := by
  cases parting <;> simp only [Meets, (h.kept hp).1, h.isDirty_iff hv hp]

/-- There is nothing left that could go away. -/
theorem Freed.eq_missing (h : v.Freed P w) (hp : P p) (hmeets : w.Meets p parting) : parting = .missing := by
  cases parting with
  | missing => rfl
  | clean =>
    have hsome := hmeets.1
    rw [(h.gone hp).1] at hsome
    cases hsome
  | written | lost _ =>
    obtain ⟨f, content, hdirty⟩ := hmeets
    exact absurd hdirty (h.not_isDirty hp)

theorem Parts.meets (h : v.Parts p parting w) : v.Meets p parting := by
  cases h with
  | missing hpage => exact hpage
  | clean hpage hclean => exact ⟨hpage, hclean⟩
  | written hdirty => exact ⟨_, _, hdirty⟩
  | lost hdirty => exact ⟨_, _, hdirty⟩

theorem Leaves.exists_of_append (h : v.Leaves (l ++ l') w) : ∃ u, v.Leaves l u ∧ u.Leaves l' w := by
  induction l generalizing v with
  | nil => exact ⟨v, .done, h⟩
  | cons x l ih =>
    cases h with
    | next hparts hrest =>
      obtain ⟨u, hleaves, hleaves'⟩ := ih hrest
      exact ⟨u, .next hparts hleaves, hleaves'⟩

/-- The first time that a page is to go away, what there was in the beginning tells how it goes. -/
theorem Leaves.meets (h : v.Leaves (l ++ (p, parting) :: l') w) (hv : v.Sound) (hheld : v.held = none) :
    if p ∈ l.map Prod.fst then parting = .missing else v.Meets p parting := by
  obtain ⟨u, hbefore, hrest⟩ := h.exists_of_append
  have hfreed := hbefore.freed hv hheld
  cases hrest with
  | next hparts =>
    split
    next hp => exact hfreed.eq_missing hp hparts.meets
    next hp => exact (hfreed.meets_iff hv hp).1 hparts.meets

/-! ### Files -/

theorem ChangesBy.congr (h : v.ChangesBy gives u) (hfiles : w.files = u.files) : v.ChangesBy gives w := by
  have hsame (g : FileId) : w.file g = u.file g := by rw [file, file, hfiles]
  exact ⟨fun g => hsame g ▸ h.1 g, fun g => hsame g ▸ h.2 g⟩

/-- A byte stays in its file if it is not under a window through which something is written. -/
theorem ChangesBy.byte_kept (h : v.ChangesBy gives w) {g : FileId} {k : Nat} {b : UInt8}
    (hb : (v.file g).data[k]? = some b) (hspared : ∀ f content, gives f content → ¬ f.Covers g k) :
    (w.file g).data[k]? = some b := by
  obtain ⟨hlength, hbyte⟩ := h.2 g
  have hk : k < (v.file g).data.length := (List.getElem?_eq_some_iff.1 hb).1
  have hk' : (w.file g).data[k]? = some (w.file g).data[k] := List.getElem?_eq_getElem (by omega)
  obtain hsame | ⟨f, content, hgives, hfile, hlow, hhigh, -⟩ | ⟨hbehind, -⟩ := hbyte hk'
  · rw [hk', ← hb, hsame]
  · exact absurd ⟨hfile, hlow, hhigh⟩ (hspared f content hgives)
  · omega

theorem IsDirty.lt_limit (h : v.IsDirty p f content) (hv : v.Sound) : f.offset + f.readBytes < Word.limit := by
  obtain ⟨page, pa, e, hpage, hkind, -⟩ := h
  exact hv.window_lt_limit hpage hkind

theorem Parts.changesBy (h : v.Parts p parting w) (hv : v.Sound) (ht : v.Truthful) :
    v.ChangesBy (v.IsDirty p) w := by
  cases h with
  | missing => exact ht.changesBy_of_eq rfl
  | clean _ _ _ hfiles => exact ht.changesBy_of_eq hfiles
  | written hdirty _ hwrite hfiles =>
    exact ((WroteBack.bytes hwrite).changesBy ht (hdirty.lt_limit hv) hdirty).congr hfiles
  | lost hdirty _ hwrite hfiles =>
    exact ((FailedToWrite.stopped hwrite).changesBy ht (hdirty.lt_limit hv) hdirty).congr hfiles

/-- Files change only by what the pages hold that were dirty in the beginning. -/
theorem Leaves.changesBy (h : v.Leaves l w) (hv : v.Sound) (hheld : v.held = none) (ht : v.Truthful) :
    v.ChangesBy (fun f content => ∃ p ∈ l.map Prod.fst, v.IsDirty p f content) w := by
  induction h with
  | done => exact ht.changesBy_of_eq rfl
  | @next u v w p parting l hparts hrest ih =>
    have hfreed := hparts.freed hv hheld
    have hfirst := hparts.changesBy hv ht
    have hlater := ih (hparts.sound hv hheld) (hfreed.held.trans hheld) hfirst.1
    refine ⟨hlater.1, fun g => ((hfirst.2 g).mono fun f content hdirty => ?_).trans
      ((hlater.2 g).mono fun f content hdirty => ?_)⟩
    · exact ⟨p, List.mem_cons_self .., hdirty⟩
    · obtain ⟨q, hq, hdirty⟩ := hdirty
      have hne : q ≠ p := fun hqp => hfreed.not_isDirty hqp hdirty
      exact ⟨q, List.mem_cons_of_mem _ hq, (hfreed.isDirty_iff hv hne).1 hdirty⟩

theorem Parts.isSome_files (h : v.Parts p parting w) (g : FileId) : (w.files g).isSome = (v.files g).isSome := by
  have hset (g' : FileId) (file : File) : ((v.setFile g' file).files g).isSome = (v.files g).isSome := by
    rw [setFile_files, Function.update_apply]
    split
    next hg => rw [Option.isSome_map, hg]
    next => rfl
  cases h with
  | missing => rfl
  | clean _ _ _ hfiles => rw [hfiles]
  | written _ _ _ hfiles => rw [hfiles, hset]
  | lost _ _ _ hfiles => rw [hfiles, hset]

/-- A page that is to be written is written once. -/
theorem Leaves.nodup_tried (h : v.Leaves l w) (hv : v.Sound) (hheld : v.held = none) : (tried l).Nodup := by
  induction h with
  | done => exact .nil
  | @next u v w p parting l hparts hrest ih =>
    have hfreed := hparts.freed hv hheld
    have hsound := hparts.sound hv hheld
    have hheld' : v.held = none := hfreed.held.trans hheld
    have hrest' := ih hsound hheld'
    rw [tried, List.filter_cons]
    split
    next =>
      refine List.nodup_cons.2 ⟨fun hp => ?_, hrest'⟩
      -- A page that has gone is not there to be written again.
      obtain ⟨⟨q, again⟩, hx, rfl⟩ := List.mem_map.1 hp
      obtain ⟨hmem, htries⟩ := List.mem_filter.1 hx
      obtain ⟨l₁, l₂, rfl⟩ := List.append_of_mem hmem
      have hmeets := hrest.meets hsound hheld'
      have hmissing : again = .missing := by
        split at hmeets
        next => exact hmeets
        next => exact hfreed.eq_missing rfl hmeets
      rw [hmissing] at htries
      cases htries
    next => exact hrest'

theorem Parts.file_eq (h : v.Parts p parting w) {g : FileId} (hg : (v.files g).isSome) :
    if parting.tries then
      ∃ f content, v.IsDirty p f content ∧ w.file g = if f.file = g then f.attempt content (v.file g) else v.file g
    else w.file g = v.file g := by
  have hset {f : FileWindow} {content : PageContent} {file : File} (hfiles : w.files = (v.setFile f.file file).files)
      (hfile : f.attempt content (v.file f.file) = file) :
      w.file g = if f.file = g then f.attempt content (v.file g) else v.file g := by
    rw [View.file, hfiles]
    refine (v.file_setFile f.file file g).trans ?_
    by_cases hfg : f.file = g
    · subst hfg
      rw [if_pos ⟨rfl, hg⟩, if_pos rfl, hfile]
    · rw [if_neg fun h => hfg h.1.symm, if_neg hfg]
  cases h with
  | missing => rfl
  | clean _ _ _ hfiles => exact congrArg (fun files => (files g).getD default) hfiles
  | written hdirty _ hwrite hfiles => exact ⟨_, _, hdirty, hset hfiles (by rw [FileWindow.attempt, hwrite])⟩
  | lost hdirty _ hwrite hfiles => exact ⟨_, _, hdirty, hset hfiles (by rw [FileWindow.attempt, hwrite])⟩

theorem Leaves.isSome_files (h : v.Leaves l w) (g : FileId) : (w.files g).isSome = (v.files g).isSome := by
  induction h with
  | done => rfl
  | next hparts _ ih => exact ih.trans (hparts.isSome_files g)

/-- Each page that is to be written is written once, or that is tried. -/
theorem Leaves.exists_attempts (h : v.Leaves l w) (hv : v.Sound) (hheld : v.held = none) :
    ∃ ws, ws.map Prod.fst = tried l ∧ (∀ x ∈ ws, v.IsDirty x.1 x.2.1 x.2.2) ∧ v.Attempts ws w := by
  induction h with
  | done => exact ⟨[], rfl, List.forall_mem_nil _, fun g _ => rfl⟩
  | @next u v w p parting l hparts hrest ih =>
    have hfreed := hparts.freed hv hheld
    obtain ⟨ws, hws, hdirty, hattempts⟩ := ih (hparts.sound hv hheld) (hfreed.held.trans hheld)
    have hdirty' (x : PageId × FileWindow × PageContent) (hx : x ∈ ws) : u.IsDirty x.1 x.2.1 x.2.2 :=
      (hfreed.isDirty_iff hv fun hxp => hfreed.not_isDirty hxp (hdirty x hx)).1 (hdirty x hx)
    have hfile (g : FileId) (hg : (u.files g).isSome) := hattempts g ((hparts.isSome_files g).trans hg)
    cases htries : parting.tries with
    | false =>
      refine ⟨ws, ?_, hdirty', fun g hg => ?_⟩
      · rw [hws, tried, tried, List.filter_cons_of_neg (by simp [htries])]
      · have hsame := hparts.file_eq hg
        rw [htries, if_neg Bool.false_ne_true] at hsame
        rw [hfile g hg, hsame]
    | true =>
      obtain ⟨f, content, hthis⟩ : ∃ f content, u.IsDirty p f content := by
        have hmeets := hparts.meets
        cases parting with
        | missing | clean => cases htries
        | written | lost _ => exact hmeets
      refine ⟨(p, f, content) :: ws, ?_, List.forall_mem_cons.2 ⟨hthis, hdirty'⟩, fun g hg => ?_⟩
      · rw [List.map_cons, hws, tried, tried, List.filter_cons_of_pos (by simp [htries]), List.map_cons]
      · have hsame := hparts.file_eq hg
        rw [htries, if_pos rfl] at hsame
        obtain ⟨f', content', hthis', hsame⟩ := hsame
        obtain ⟨rfl, rfl⟩ := hthis.unique hthis'
        rw [hfile g hg, hsame]
        rfl

/-- A page that is written to its file has its bytes there. -/
theorem Parts.byte_written (h : v.Parts p .written w) (hv : v.Sound) (ht : v.Truthful) (hdirty : v.IsDirty p f content)
    (hfile : (v.files f.file).isSome) {k : Nat} (hk : k < f.readBytes) :
    (w.file f.file).data[f.offset + k]? = some (Content.byteAt content k) := by
  cases h with
  | @written _ f' content' n file hdirty' _ hwrite hfiles =>
    obtain ⟨rfl, rfl⟩ := hdirty.unique hdirty'
    have hlength := f.length_bytesOf content
    have hspliced := (ht f.file).write (hlength.symm ▸ hdirty.lt_limit hv)
    rw [hwrite] at hspliced
    have hsame : w.file f.file = file := by
      rw [View.file, hfiles]
      exact (v.file_setFile f.file file f.file).trans (if_pos ⟨rfl, hfile⟩)
    have hne : f.bytesOf content ≠ [] := fun hnil => by
      rw [hnil] at hlength
      exact absurd hk (Nat.not_lt.2 (hlength ▸ Nat.zero_le _))
    rw [hsame, hspliced.2, File.getElem?_splice hne, if_pos ⟨Nat.le_add_right .., by omega⟩,
      Nat.add_sub_cancel_left, f.getElem?_bytesOf content hk]

theorem Leaves.disposes (h : v.Leaves l w) (hv : v.Sound) (hheld : v.held = none) : v.Disposes l w where
  steps := h
  freed := h.freed hv hheld
  met hl := (hl ▸ h).meets hv hheld
  attempts := ⟨h.nodup_tried hv hheld, h.exists_attempts hv hheld⟩
  saved ht l₁ p l₂ f content k hl hdirty hfile hk hspared := by
    subst hl
    obtain ⟨u, hbefore, hrest⟩ := h.exists_of_append
    have hfreed := hbefore.freed hv hheld
    have hu := hbefore.sound hv hheld
    have hheld' : u.held = none := hfreed.held.trans hheld
    cases hrest with
    | @next _ u' _ _ _ _ hparts hafter =>
      have hp : p ∉ l₁.map Prod.fst := fun hp => by cases hfreed.eq_missing hp hparts.meets
      have hdirty' : u.IsDirty p f content := (hfreed.isDirty_iff hv hp).2 hdirty
      have hfreed' := hparts.freed hu hheld'
      have ht' := (hbefore.changesBy hv hheld ht).1
      have hbyte := hparts.byte_written hu ht' hdirty' ((hbefore.isSome_files f.file).trans hfile) hk
      have hchanges := hafter.changesBy (hparts.sound hu hheld') (hfreed'.held.trans hheld') (hparts.changesBy hu ht').1
      refine hchanges.byte_kept hbyte fun f' content' hgives => ?_
      obtain ⟨q, hq, hdirtyq⟩ := hgives
      refine hspared q hq f' content' ?_
      have hgone := hfreed.trans hfreed'
      have hne : ¬ (q ∈ l₁.map Prod.fst ∨ q = p) := fun hq' => hgone.not_isDirty hq' hdirtyq
      exact (hgone.isDirty_iff hv hne).1 hdirtyq

end View

/-- The pages of a region are different. -/
theorem Region.nodup_places (id : SpaceId) (r : Region) : (r.places id).Nodup := by
  rw [places, addrs, List.map_map]
  refine List.nodup_range.map fun i j h => ?_
  have hstart : (r.start.toNat + i * pageSize) / pageSize = (r.start.toNat + j * pageSize) / pageSize := by
    have hdown := congrArg (fun p : PageId => p.va.toNat) h
    exact Nat.eq_of_mul_eq_mul_right (by decide) hdown
  rw [Nat.add_mul_div_right _ _ (by decide), Nat.add_mul_div_right _ _ (by decide)] at hstart
  omega

namespace System

variable {s : System}

/-- Unmapping removes the region and all that is left of its pages, whatever fails, and says of the failures the first
one in the order of the addresses. Teardown removes all regions of an address space like that, and then the pages that
are left. -/
theorem Steady.unmaps_whatever_fails (hs : s.Steady) (id : SpaceId) :
    (∀ va r, s.region? ⟨id, va⟩ = some r → ∃ l t, munmap id va s =
        (match firstError? l with | none => .ok () t | some e => .error (.error e) t) ∧ t.Steady ∧
      l.map Prod.fst = r.places id ∧ (r.places id).Nodup ∧
      t.region? = Function.update s.region? ⟨id, va⟩ none ∧ (s.view.setRegion ⟨id, va⟩ none).Disposes l t.view) ∧
    (id ∈ s.spaces → ∃ l l' t, teardown id s = .ok () t ∧ t.Steady ∧
      l.map Prod.fst = (s.space id).regions.values.flatMap (Region.places id) ∧
      (∀ p, p ∈ l'.map Prod.fst ↔ p.space = id ∧ (s.page? p).isSome ∧ p ∉ l.map Prod.fst) ∧ (l'.map Prod.fst).Nodup ∧
      (∀ p, t.region? p = if p.space = id then none else s.region? p) ∧
      (∀ p, p.space = id → t.page? p = none ∧ t.view.entries p = none) ∧
      (s.view.withoutRegions id).Disposes (l ++ l') t.view) := by
  refine ⟨fun va r hr => ?_, fun hid => ?_⟩
  · have hv := (Does.forget (v := s.view) (p := ⟨id, va⟩)).sound hs.sound
    have hadmissible : (Call.munmap id va).Admissible s :=
      ⟨fun id' hid => Option.mem_some_iff.1 hid ▸ hs.sound.region hr, fun _ h => (by cases h), fun _ h => by cases h⟩
    have hafter := hs.call hadmissible
    have hwp := wp_munmap hs.wellFormed hs.sound hr
    cases hrun : munmap id va s with
    | ok _ t =>
      obtain ⟨-, l, hl, hleaves, hfirst⟩ := hwp.of_ok hrun
      have hdisposes := hleaves.disposes hv rfl
      rw [Call.outcome, Call.run, bind_eq_of_eq_ok hrun] at hafter
      exact ⟨l, t, by rw [hfirst], hafter, hl, r.nodup_places id, hdisposes.freed.regions, hdisposes⟩
    | error f t =>
      obtain ⟨-, l, e, hl, hleaves, rfl, hfirst⟩ := hwp.of_error hrun
      have hdisposes := hleaves.disposes hv rfl
      rw [Call.outcome, Call.run, bind_eq_of_eq_error hrun] at hafter
      exact ⟨l, t, by rw [hfirst], hafter, hl, r.nodup_places id, hdisposes.freed.regions, hdisposes⟩
  · have hforget : Does (.forgetAll id) s.view _ := .forgetAll
    have hv := hforget.sound hs.sound
    have hadmissible : (Call.teardown id).Admissible s :=
      ⟨fun id' h => Option.mem_some_iff.1 h ▸ hid, fun _ h => (by cases h), fun _ h => by cases h⟩
    have hafter := hs.call hadmissible
    have hwp := wp.and (wp_teardown hs.wellFormed hs.sound hid) (performs_teardown hs.wellFormed hs.sound hid)
    cases hrun : teardown id s with
    | ok _ t =>
      obtain ⟨⟨-, l, l', hl, hnodup, hleft, hleaves⟩, -, ds, -, -, -, hfreed⟩ := hwp.of_ok hrun
      have hdisposes := hleaves.disposes hv rfl
      rw [Call.outcome, Call.run, bind_eq_of_eq_ok hrun] at hafter
      exact ⟨l, l', t, rfl, hafter, hl, hleft, hnodup, congrFun hfreed.regions, fun p hp => hfreed.gone hp,
        hdisposes⟩
    | error f t => exact absurd (hwp.of_error hrun).1 not_false

/-- A file of two pages that refuses to be written at its beginning, and two frames. -/
def brittle : System :=
  { small { data := List.replicate 4097 7, faults := { write := [0] } } with
    pager := { (small {}).pager with pool := .new ⟨0x1000000⟩ 2 } }

/-- The file is mapped, and both its pages were written. -/
def bothWritten : System :=
  brittle.after [.create, .mmap 0 ⟨0x10000⟩ 4097 true 0 0, .store 0 ⟨0x10000⟩ 0 8, .store 0 ⟨0x11000⟩ 0 9]

/-- That the first page cannot be saved is the result, and does not keep the second one from being saved. A teardown does
not fail for this. -/
theorem exists_unmaps_whatever_fails : ∃ (s t u : System) (r : Region) (l l₁ l₂ : List (PageId × Parting)),
    s.Steady ∧ s.region? ⟨0, ⟨0x10000⟩⟩ = some r ∧ r.pageCount = 2 ∧
    munmap 0 ⟨0x10000⟩ s = .error (.error .ioError) t ∧ l.map Prod.fst = r.places 0 ∧
    firstError? l = some .ioError ∧ (s.view.setRegion ⟨0, ⟨0x10000⟩⟩ none).Disposes l t.view ∧
    (t.file 0).data[0]? = some 7 ∧ (t.file 0).data[4096]? = some 9 ∧
    teardown 0 s = .ok () u ∧ (s.view.withoutRegions 0).Disposes (l₁ ++ l₂) u.view ∧
    (u.file 0).data[4096]? = some 9 := by
  have hinitial : brittle.Initial := ⟨⟨{ frames := 2, disk := some (.blank 16) }, _, rfl⟩, rfl, rfl⟩
  have hs : bothWritten.Reachable := (Reachable.initial hinitial).after (by decide +kernel)
  obtain ⟨hregion, hid⟩ : bothWritten.region? ⟨0, ⟨0x10000⟩⟩ = some ⟨⟨0x10000⟩, 2, 0⟩ ∧ 0 ∈ bothWritten.spaces := by
    decide +kernel
  obtain ⟨hmunmap, hteardown⟩ := hs.steady.unmaps_whatever_fails 0
  obtain ⟨l, t, hrun, -, hl, -, -, hdisposes⟩ := hmunmap ⟨0x10000⟩ _ hregion
  obtain ⟨l₁, l₂, u, hrun', -, -, -, -, -, -, hdisposes'⟩ := hteardown hid
  obtain ⟨t', hfails⟩ : ∃ t', munmap 0 ⟨0x10000⟩ bothWritten = .error (.error .ioError) t' :=
    exists_of_errno (by decide +kernel)
  have ht : t' = outcomeOf (munmap 0 ⟨0x10000⟩) bothWritten := by rw [outcomeOf, hfails]
  have hu : u = outcomeOf (teardown 0) bothWritten := by rw [outcomeOf, hrun']
  obtain ⟨hlost, hsaved⟩ : (t'.file 0).data[0]? = some 7 ∧ (t'.file 0).data[4096]? = some 9 := by
    rw [ht]
    decide +kernel
  rw [hfails] at hrun
  cases hfirst : firstError? l with
  | none =>
    rw [hfirst] at hrun
    cases hrun
  | some e =>
    rw [hfirst] at hrun
    cases hrun
    refine ⟨_, _, u, _, l, l₁, l₂, hs.steady, hregion, rfl, hfails, hl, hfirst, hdisposes, hlost, hsaved, hrun',
      hdisposes', ?_⟩
    rw [hu]
    decide +kernel

end System

end DemandPaging
