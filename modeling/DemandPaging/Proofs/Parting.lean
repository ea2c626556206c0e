import DemandPaging.Proofs.Claim
import DemandPaging.Proofs.Removal

/-!
How pages go away. A page that was written since it was loaded is written to its file when it goes, and goes whether
or not that succeeds; no other page touches a file.
-/

namespace DemandPaging

open Paging

/-- How a page goes away. -/
inductive Parting where
  /-- There is no page. -/
  | missing
  /-- Nothing is written to a file. -/
  | clean
  | written
  /-- The write to the file fails with `e`. -/
  | lost (e : Errno)
  deriving DecidableEq

/-- The error that tells of it, if one does. -/
def Parting.error? : Parting → Option Errno
  | missing => some .noSuchEntry
  | clean | written => none
  | lost e => some e

/-- The first error that tells how pages went one after the other. -/
def firstError? (l : List (PageId × Parting)) : Option Errno := l.findSome? fun x => x.2.error?

/-- The places of the pages of the region in the address space `id`, in order. -/
def Region.places (id : SpaceId) (r : Region) : List PageId := r.addrs.map fun va => ⟨id, va.pageDown⟩

theorem File.write_nil (position : Nat) (f : File) : File.write position [] f = .ok 0 f := rfl

theorem FileWindow.bytesOf_eq_nil {f : FileWindow} (h : f.readBytes = 0) (content : PageContent) :
    f.bytesOf content = [] := by rw [bytesOf, Content.slice, h, List.take_zero]

namespace View

/-- The page at `p` goes away as the parting says, and its file, if it is written, is what the write makes of it. -/
inductive Parts (p : PageId) (v : View) : Parting → View → Prop
  | missing (hpage : v.pages p = none) : Parts p v .missing v
  | clean {w : View} (hpage : (v.pages p).isSome) (hclean : ∀ f content, ¬ v.IsDirty p f content)
    (hreleases : v.Releases p w) (hfiles : w.files = v.files) : Parts p v .clean w
  | written {w : View} {f : FileWindow} {content : PageContent} {n : Nat} {file : File} (hdirty : v.IsDirty p f content)
    (hreleases : v.Releases p w) (hwrite : File.write f.offset (f.bytesOf content) (v.file f.file) = .ok n file)
    (hfiles : w.files = (v.setFile f.file file).files) : Parts p v .written w
  | lost {w : View} {f : FileWindow} {content : PageContent} {e : Errno} {file : File} (hdirty : v.IsDirty p f content)
    (hloses : v.Loses p w)
    (hwrite : File.write f.offset (f.bytesOf content) (v.file f.file) = .error (.error e) file)
    (hfiles : w.files = (v.setFile f.file file).files) : Parts p v (.lost e) w

/-- Pages go away one after the other. -/
inductive Leaves : View → List (PageId × Parting) → View → Prop
  | done {v : View} : Leaves v [] v
  | next {u v w : View} {p : PageId} {parting : Parting} {l : List (PageId × Parting)} (h : u.Parts p parting v)
    (hrest : Leaves v l w) : Leaves u ((p, parting) :: l) w

variable {u v w : View} {p : PageId} {f : FileWindow} {content : PageContent} {parting : Parting}
  {l l' : List (PageId × Parting)}

theorem IsDirty.unique (h : v.IsDirty p f content) {f' : FileWindow} {content' : PageContent}
    (h' : v.IsDirty p f' content') : f = f' ∧ content = content' := by
  obtain ⟨page, pa, e, hpage, hkind, hframe, -, -, hcontent⟩ := h
  obtain ⟨page', pa', e', hpage', hkind', hframe', -, -, hcontent'⟩ := h'
  cases hpage.symm.trans hpage'
  cases hkind.symm.trans hkind'
  cases hframe.symm.trans hframe'
  cases hcontent.symm.trans hcontent'
  exact ⟨rfl, rfl⟩

/-- What is written back is what the write makes of the file. -/
theorem WroteBack.exists_write (h : v.WroteBack f content w) : ∃ n file,
    File.write f.offset (f.bytesOf content) (v.file f.file) = .ok n file ∧ w.files = (v.setFile f.file file).files := by
  cases h with
  | bytes hwrite => exact ⟨_, _, hwrite, rfl⟩
  | nothing hzero =>
    refine ⟨0, v.file f.file, by rw [FileWindow.bytesOf_eq_nil hzero, File.write_nil], funext fun g => ?_⟩
    rw [setFile_files, Function.update_apply]
    split
    next hg =>
      subst hg
      rw [file]
      cases v.files f.file <;> rfl
    next => rfl

/-- A page that goes away without an error was not there, was clean, or was written to its file. -/
theorem Releases.exists_parts (h : v.Releases p w) : ∃ parting, v.Parts p parting w ∧ parting.error? = none := by
  have hbare {page : PageEntry} (hpage : v.pages p = some page) (hframe : page.frame = none) (f content) :
      ¬ v.IsDirty p f content := by
    rintro ⟨page', pa, -, hpage', -, hframe', -⟩
    cases hpage.symm.trans hpage'
    rw [hframe] at hframe'
    cases hframe'
  cases h with
  | @resident v' page pa hpage hframe hwrite =>
    have hreleases := Releases.resident hpage hframe hwrite
    obtain ⟨rfl, hclean⟩ | ⟨f, e, content, hkind, hentry, hdirty, hcontent, hwrote⟩ := hwrite
    · refine ⟨.clean, .clean (Option.isSome_of_eq_some hpage) (fun f content hdirty => ?_) hreleases rfl, rfl⟩
      obtain ⟨page', pa', e, hpage', hkind, -, hentry, hmarked, -⟩ := hdirty
      cases hpage.symm.trans hpage'
      rw [hclean f e hkind hentry] at hmarked
      cases hmarked
    · obtain ⟨n, file, hfile, hfiles⟩ := hwrote.exists_write
      exact ⟨.written,
        .written ⟨page, pa, e, hpage, hkind, hframe, hentry, hdirty, hcontent⟩ hreleases hfile hfiles, rfl⟩
  | swapped hpage hframe hkind =>
    exact ⟨.clean, .clean (Option.isSome_of_eq_some hpage) (hbare hpage hframe) (.swapped hpage hframe hkind) rfl, rfl⟩
  | bare hpage hframe hkind =>
    exact ⟨.clean, .clean (Option.isSome_of_eq_some hpage) (hbare hpage hframe) (.bare hpage hframe hkind) rfl, rfl⟩

theorem Loses.parts {e : Errno} (h : v.Loses p w) (hsave : v.CannotSave p e) : v.Parts p (.lost e) w := by
  obtain ⟨f, content, hdirty, file, hfile⟩ := hsave
  have hloses := h
  cases h with
  | @lose v' page f' pa entry content' hpage hframe hkind hentry hmarked hcontent hwrite =>
    obtain ⟨rfl, rfl⟩ := hdirty.unique ⟨page, pa, entry, hpage, hkind, hframe, hentry, hmarked, hcontent⟩
    cases hwrite with
    | stopped hwrite =>
      cases hfile.symm.trans hwrite
      exact .lost hdirty hloses hfile rfl

namespace Parts

theorem freed (h : v.Parts p parting w) (hv : v.Sound) (hheld : v.held = none) : v.Freed (· = p) w := by
  cases h with
  | missing hpage => exact .of_missing hv fun _ hq => hq ▸ hpage
  | clean _ _ hreleases => exact hreleases.freed hv hheld
  | written _ hreleases => exact hreleases.freed hv hheld
  | lost _ hloses => exact hloses.freed hv hheld

theorem trace (h : v.Parts p parting w) (hheld : v.held = none) :
    ∃ ds, Trace v ds w ∧ ∀ d ∈ ds, d = .remove p := by
  cases h with
  | missing => exact ⟨[], .done, fun d hd => by cases hd⟩
  | clean _ _ hreleases => exact ⟨_, .single (.release hheld hreleases), by simp⟩
  | written _ hreleases => exact ⟨_, .single (.release hheld hreleases), by simp⟩
  | lost _ hloses => exact ⟨_, .single (.lose hheld hloses), by simp⟩

theorem sound (h : v.Parts p parting w) (hv : v.Sound) (hheld : v.held = none) : w.Sound := by
  obtain ⟨ds, htrace, -⟩ := h.trace hheld
  exact htrace.sound hv

end Parts

namespace Leaves

theorem append (h : u.Leaves l v) (h' : v.Leaves l' w) : u.Leaves (l ++ l') w := by
  induction h with
  | done => exact h'
  | next hparts _ ih => exact .next hparts (ih h')

theorem trace (h : v.Leaves l w) (hv : v.Sound) (hheld : v.held = none) :
    ∃ ds, Trace v ds w ∧ ∀ d ∈ ds, ∃ p ∈ l.map Prod.fst, d = .remove p := by
  induction h with
  | done => exact ⟨[], .done, fun d hd => by cases hd⟩
  | next hparts _ ih =>
    obtain ⟨ds, htrace, hds⟩ := hparts.trace hheld
    obtain ⟨es, htrace', hes⟩ := ih (hparts.sound hv hheld) ((hparts.freed hv hheld).held.trans hheld)
    refine ⟨ds ++ es, htrace.append htrace', fun d hd => ?_⟩
    obtain hd | hd := List.mem_append.1 hd
    · exact ⟨_, List.mem_cons_self .., hds d hd⟩
    · obtain ⟨q, hq, rfl⟩ := hes d hd
      exact ⟨q, List.mem_cons_of_mem _ hq, rfl⟩

theorem sound (h : v.Leaves l w) (hv : v.Sound) (hheld : v.held = none) : w.Sound := by
  obtain ⟨ds, htrace, -⟩ := h.trace hv hheld
  exact htrace.sound hv

/-- All these pages are gone, and everything else is left. -/
theorem freed (h : v.Leaves l w) (hv : v.Sound) (hheld : v.held = none) : v.Freed (· ∈ l.map Prod.fst) w := by
  induction h with
  | done => exact .of_missing hv fun p hp => by cases hp
  | next hparts _ ih =>
    have hfreed := hparts.freed hv hheld
    refine (hfreed.trans (ih (hparts.sound hv hheld) (hfreed.held.trans hheld))).congr fun q => ?_
    rw [List.map_cons, List.mem_cons]

end Leaves

end View

namespace Paging

variable {s : System}

/-- A page goes away; if it was not there, or could not be saved, an error says so. -/
theorem wp_removePage_parts (hs : s.WellFormed) (hv : s.view.Sound) (id : SpaceId) (va : VirtAddr) :
    wp (caught (removePage id va)) s (fun r t => t.WellFormed ∧ ∃ parting, s.view.Parts ⟨id, va.pageDown⟩ parting t.view ∧
      match r with
      | .ok _ => parting.error? = none
      | .error e => parting.error? = some e) fun _ _ => False := by
  rw [wp_caught]
  refine wp_removePage hs hv id va (fun hmissing => ?_) (fun t ht hreleases => ?_) fun e t ht hloses hsave => ?_
  · exact ⟨hs, .missing, .missing hmissing, rfl⟩
  · exact ⟨ht, hreleases.exists_parts⟩
  · exact ⟨ht, .lost e, hloses.parts hsave, rfl⟩

end Paging

end DemandPaging
