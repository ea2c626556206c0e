import DemandPaging.Proofs.RangeCheck
import DemandPaging.Proofs.Registration
import DemandPaging.Proofs.SharedFile

/-!
The image of a segment. Its pages are described all together or not at all. In whatever order they are loaded, and
wherever they go in between, they show one image: the bytes of the file, and zeros behind them.
-/

namespace DemandPaging

open Paging

/-- What loads a page produces it from the bytes of the file. -/
def Source.content (data : Bytes) : Source → PageContent
  | zero => Content.zero pageSize
  | file w => w.contentOver data

/-- A segment: the pages of `space` from `start` on show `readBytes` bytes of `file` from `offset` on, and `zeroBytes`
zeros behind them. -/
structure Segment where
  space : SpaceId
  file : FileId
  offset : Nat
  start : VirtAddr
  readBytes : Nat
  zeroBytes : Nat
  writable : Bool
  deriving DecidableEq

namespace Segment

variable {g : Segment} {data : Bytes} {i k n : Nat}

/-- The number of bytes. -/
def size (g : Segment) : Nat := g.readBytes + g.zeroBytes

/-- The number of pages. -/
def count (g : Segment) : Nat := g.size / pageSize

/-- What loads the `i`-th page: its share of the file, or zeros behind that. -/
def source (g : Segment) (i : Nat) : Source :=
  if g.readBytes ≤ i * pageSize then .zero
  else .file (.new g.file (g.offset + i * pageSize) (g.readBytes - i * pageSize))

/-- The pages as a run. -/
def run (g : Segment) : PageRun := ⟨g.start, g.writable, fun i => .anon (g.source i)⟩

/-- The place of the `i`-th page. -/
def place (g : Segment) (i : Nat) : PageId := ⟨g.space, g.run.addr i⟩

/-- The place is that of a page of the segment. -/
def IsPlace (g : Segment) (p : PageId) : Prop := ∃ i < g.count, p = g.place i

/-- The bytes that the segment is to show. -/
def image (g : Segment) (data : Bytes) : Bytes :=
  (data.drop g.offset).take g.readBytes ++ List.replicate g.zeroBytes 0

/-- What the `i`-th page is to show. -/
def content (g : Segment) (data : Bytes) (i : Nat) : PageContent :=
  Content.ofBytes pageSize ((g.image data).drop (i * pageSize))

theorem length_image (h : g.offset + g.readBytes ≤ data.length) : (g.image data).length = g.size := by
  simp only [image, size, List.length_append, List.length_take, List.length_drop, List.length_replicate]
  omega

theorem getElem?_image_of_lt (hk : k < g.readBytes) (h : g.offset + g.readBytes ≤ data.length) :
    (g.image data)[k]? = data[g.offset + k]? := by
  have hlength : k < ((data.drop g.offset).take g.readBytes).length := by
    rw [List.length_take, List.length_drop]
    omega
  rw [image, List.getElem?_append_left hlength, List.getElem?_take_of_lt hk, List.getElem?_drop]

theorem getElem?_image_of_le (data : Bytes) (hk : g.readBytes ≤ k) : (g.image data)[k]?.getD 0 = 0 := by
  have hlength : ((data.drop g.offset).take g.readBytes).length ≤ k := by
    rw [List.length_take]
    omega
  rw [image, List.getElem?_append_right hlength, List.getElem?_replicate]
  split <;> rfl

/-- The shares of the file and the zeros make up the image. -/
theorem content_source (g : Segment) (h : g.offset + g.readBytes ≤ data.length) (i : Nat) :
    (g.source i).content data = g.content data i := by
  refine Vector.ext fun j hj => ?_
  rw [content, Content.getElem_ofBytes, List.getElem?_drop, source]
  split
  next hzero =>
    rw [getElem?_image_of_le data (by omega)]
    exact Content.getElem_zero j hj
  next hfile =>
    simp only [Source.content, FileWindow.contentOver, FileWindow.new, Content.getElem_ofBytes]
    by_cases hread : i * pageSize + j < g.readBytes
    · rw [getElem?_image_of_lt hread h, List.getElem?_take_of_lt (by omega), List.getElem?_drop, Nat.add_assoc]
    · rw [getElem?_image_of_le data (by omega), List.getElem?_take_eq_none (by omega), Option.getD_none]

/-- The byte of the image at `k` is in the page where it belongs. -/
theorem getElem?_image (hk : k < g.size) (h : g.offset + g.readBytes ≤ data.length) :
    (g.image data)[k]? = some (Content.byteAt (g.content data (k / pageSize)) (k % pageSize)) := by
  have hmod : k % pageSize < pageSize := Nat.mod_lt _ (by decide)
  have hk' : k < (g.image data).length := by rwa [length_image h]
  rw [Content.byteAt, Vector.getElem?_eq_getElem hmod, content, Option.getD_some, Content.getElem_ofBytes,
    List.getElem?_drop, Nat.div_add_mod' k pageSize, List.getElem?_eq_getElem hk', Option.getD_some]

theorem div_lt_count (hsize : g.size % pageSize = 0) (hk : k < g.size) : k / pageSize < g.count := by
  rw [count, Nat.div_lt_iff_lt_mul (by decide), Nat.div_mul_cancel (Nat.dvd_of_mod_eq_zero hsize)]
  exact hk

/-- The page of the byte at `k`, and the place of the byte in it. -/
theorem pageDown_add (h : g.start.offset = 0) (k : Nat) :
    (⟨g.space, (⟨g.start.toNat + k⟩ : VirtAddr).pageDown⟩ : PageId) = g.place (k / pageSize) ∧
      (g.start.toNat + k) % pageSize = k % pageSize := by
  obtain ⟨hpage, hoffset⟩ := VirtAddr.pageDown_add_of_aligned h k
  exact ⟨congrArg (PageId.mk g.space) hpage, hoffset⟩

end Segment

/-! ### Registration -/

namespace System

variable {s : System} {id : SpaceId} {pages : Std.ExtTreeMap VirtAddr PageEntry}

/-- A change to the pages of an address space shows in nothing else. -/
theorem view_withPages (hid : id ∈ s.spaces) :
    (s.withPages id pages).view = { s.view with pages := (s.withPages id pages).page? } := by
  have hsame {β : Type} (get : Space → VirtAddr → β)
      (hget : ∀ sp pages va, get { sp with pages := pages } va = get sp va) (p : PageId) :
      get ((s.withPages id pages).space p.space) p.va = get (s.space p.space) p.va := by
    rw [withPages, space_modify hid]
    split
    next hspace => rw [hspace]; exact hget ..
    next => rfl
  unfold System.view
  congr 1
  · exact funext fun id' => propext mem_spaces_withPages
  · exact funext fun p => hsame (fun sp va => sp.regions[va]?) (fun _ _ _ => rfl) p
  · exact funext fun p => hsame (fun sp va => sp.table.entries[va]?) (fun _ _ _ => rfl) p
  · exact funext fun p => hsame (fun sp va => va ∈ sp.table.refuseMap) (fun _ _ _ => rfl) p

end System

namespace Segment

variable {g : Segment} {s t : System}

/-- What is asked for are whole pages. -/
structure IsRequest (g : Segment) : Prop where
  size_aligned : g.size % pageSize = 0
  start_aligned : g.start.offset = 0
  offset_aligned : g.offset % pageSize = 0

/-- Why the segment cannot be registered in `s`: these are not whole pages, or one of the pages cannot be described; the
first such page gives the reason. -/
inductive Refused (g : Segment) (s : System) : Errno → Prop
  | invalid (hrequest : ¬ g.IsRequest) : Refused g s .invalidArgument
  | page {e : Errno} {i : Nat} (hrequest : g.IsRequest) (hi : i < g.count)
    (hrefused : pageRefusal? (s.space g.space).pages (g.run.addr i) = some e)
    (hbefore : ∀ j < i, pageRefusal? (s.space g.space).pages (g.run.addr j) = none) : Refused g s e

/-- The pages of the segment, none of which was there in `s`, are described in `t`, and they are in user memory. Nothing
else has changed. -/
structure Registers (g : Segment) (s t : System) : Prop where
  user : ∀ i < g.count, (g.place i).va.toNat < kernelBase
  missing : ∀ i < g.count, s.page? (g.place i) = none
  page : ∀ i < g.count, t.page? (g.place i) = some (.pending g.writable (.anon (g.source i)))
  others : ∀ p, ¬ g.IsPlace p → t.page? p = s.page? p
  view : t.view = { s.view with pages := t.page? }
  pager : t.pager = s.pager
  log : t.log = s.log.push (.segment g.start (g.start.toNat + g.size) g.readBytes)

/-- The system `s` with the pages of the segment. -/
def registered (g : Segment) (s : System) : System :=
  let t := s.withPages g.space (g.run.lay (s.space g.space).pages 0 g.count)
  { t with log := t.log.push (.segment g.start (g.start.toNat + g.size) g.readBytes) }

theorem page?_registered (hid : g.space ∈ s.spaces) (p : PageId) : (g.registered s).page? p =
    if p.space = g.space then (g.run.lay (s.space g.space).pages 0 g.count)[p.va]? else s.page? p :=
  System.page?_withPages hid p

/-- What is described is what `registered` says, and nothing else has changed. -/
theorem registers (hid : g.space ∈ s.spaces)
    (hfree : ∀ i < g.count, (g.run.addr i).toNat < kernelBase ∧ g.run.addr i ∉ (s.space g.space).pages) :
    g.Registers s (g.registered s) where
  user i hi := (hfree i hi).1
  missing i hi := Std.ExtTreeMap.getElem?_eq_none (hfree i hi).2
  page i hi := by
    have hspace : (g.place i).space = g.space := rfl
    rw [page?_registered hid, if_pos hspace]
    exact PageRun.getElem?_lay_addr (r := g.run) (Nat.zero_le i) (by omega)
  others p hp := by
    rw [page?_registered hid]
    split
    next hspace =>
      rw [PageRun.getElem?_lay_of_ne fun j _ hj hva => hp ⟨j, by omega, by cases p; cases hspace; cases hva; rfl⟩,
        System.page?, hspace]
    next => rfl
  view := System.view_withPages hid
  pager := rfl
  log := rfl

/-- The share that the `i`-th page has of the file, if it has one, starts at a word. -/
def HasPosition (g : Segment) (i : Nat) : Prop := i * pageSize < g.readBytes → g.offset + i * pageSize < Word.limit

/-- The `i`-th page can be described in `s`. -/
structure Fits (g : Segment) (s : System) (i : Nat) : Prop where
  position : g.HasPosition i
  free : pageRefusal? (s.space g.space).pages (g.run.addr i) = none

/-- How the registration of the segment ends in `s`, whatever its numbers are. It panics where the numbers of bytes have a
sum that is no word, and where a page that is reached starts at a position that is none. The pages in front of such a page
have been described by then. -/
inductive Ends (g : Segment) (s : System) : EStateM.Result Failure System Unit → Prop
  | size (hsize : Word.limit ≤ g.size) : Ends g s (.error (.panic (.overflow .add)) s)
  | invalid (hsize : g.size < Word.limit) (hrequest : ¬ g.IsRequest) : Ends g s (.error (.error .invalidArgument) s)
  | refused {e : Errno} {i : Nat} (hsize : g.size < Word.limit) (hrequest : g.IsRequest) (hi : i < g.count)
    (hposition : g.HasPosition i) (hrefused : pageRefusal? (s.space g.space).pages (g.run.addr i) = some e)
    (hbefore : ∀ j < i, g.Fits s j) : Ends g s (.error (.error e) s)
  | position {i : Nat} (hsize : g.size < Word.limit) (hrequest : g.IsRequest) (hi : i < g.count)
    (hposition : ¬ g.HasPosition i) (hbefore : ∀ j < i, g.Fits s j) :
    Ends g s (.error (.panic (.overflow .add)) (s.withPages g.space (g.run.lay (s.space g.space).pages 0 i)))
  | registered (hsize : g.size < Word.limit) (hrequest : g.IsRequest) (hfits : ∀ i < g.count, g.Fits s i) :
    Ends g s (.ok () (g.registered s))

theorem hasPosition (h : g.offset + g.readBytes ≤ Word.limit) (i : Nat) : g.HasPosition i := fun _ => by omega

theorem segmentSource_of_hasPosition {i : Nat} (h : g.HasPosition i) :
    segmentSource g.file g.offset g.readBytes (i * pageSize) = .ok (g.source i) := by
  unfold segmentSource source
  split
  next => rfl
  next hshare =>
    rw [Word.add_eq_ok_iff.2 ⟨h (by omega), rfl⟩]
    rfl

theorem segmentSource_of_not_hasPosition {i : Nat} (h : ¬ g.HasPosition i) :
    segmentSource g.file g.offset g.readBytes (i * pageSize) = .error .add := by
  obtain ⟨hshare, hlimit⟩ := Classical.not_imp.1 h
  have hadd : Word.add g.offset (i * pageSize) = .error .add := if_neg hlimit
  rw [segmentSource, if_neg (Nat.not_le.2 hshare), hadd]
  rfl

/-- The loop over the pages reaches its end, or it stops at the first page that does not fit. -/
theorem segmentPages_ends (hid : g.space ∈ s.spaces) (haligned : g.start.offset = 0) {n i : Nat} (hcount : i + n = g.count)
    (hword : (g.run.addr i).toNat < Word.limit) (hbefore : ∀ j < i, g.Fits s j) :
    match segmentPages g.space g.start g.writable g.file g.offset g.readBytes n i
        (s.withPages g.space (g.run.lay (s.space g.space).pages 0 i)) with
    | .ok _ t => (∀ j < g.count, g.Fits s j) ∧ t = s.withPages g.space (g.run.lay (s.space g.space).pages 0 g.count)
    | .error f t => ∃ j < g.count, (∀ k < j, g.Fits s k) ∧
        ((g.HasPosition j ∧ t = s ∧ ∃ e, pageRefusal? (s.space g.space).pages (g.run.addr j) = some e ∧ f = .error e) ∨
          (¬ g.HasPosition j ∧ t = s.withPages g.space (g.run.lay (s.space g.space).pages 0 j) ∧
            f = .panic (.overflow .add))) := by
  induction n generalizing i with
  | zero =>
    obtain rfl : i = g.count := hcount
    exact ⟨hbefore, rfl⟩
  | succ n ih =>
    have hmul : Word.mul i pageSize = .ok (i * pageSize) :=
      Word.mul_eq_ok_iff.2 ⟨Nat.lt_of_le_of_lt (Nat.le_add_left ..) hword, rfl⟩
    have hadd : g.start.add (i * pageSize) = .ok (g.run.addr i) := VirtAddr.add_eq_ok_iff.2 ⟨hword, rfl⟩
    rw [segmentPages, hmul, word_ok_bind]
    by_cases hposition : g.HasPosition i
    · have hfree (j : Nat) (hj : j < i) : g.run.addr j ∉ (s.space g.space).pages :=
        (pageRefusal?_eq_none_iff.1 (hbefore j hj).free).2
      have hstep : orUndo (addPage g.space .anon (g.run.addr i) g.writable (g.source i))
          (dropPages g.space g.start .segmentUndoFailed i 0)
          (s.withPages g.space (g.run.lay (s.space g.space).pages 0 i)) = _ :=
        PageRun.orUndo_addPage_lay (r := g.run) hid haligned hword rfl .segmentUndoFailed hfree
      rw [segmentSource_of_hasPosition hposition, word_ok_bind, hadd, word_ok_bind]
      cases hwhy : pageRefusal? (s.space g.space).pages (g.run.addr i) with
      | some e =>
        simp only [hwhy, System.withPages_self] at hstep
        rw [bind_eq_of_eq_error hstep]
        exact ⟨i, by omega, hbefore, .inl ⟨hposition, rfl, e, hwhy, rfl⟩⟩
      | none =>
        simp only [hwhy] at hstep
        rw [bind_eq_of_eq_ok hstep]
        refine ih (by omega) ?_ fun j hj => ?_
        · rw [PageRun.addr_succ]
          exact Nat.lt_of_lt_of_le (Nat.add_lt_add_right (pageRefusal?_eq_none_iff.1 hwhy).1 _) (by decide)
        · obtain rfl | hlt := Nat.eq_or_lt_of_le (Nat.le_of_lt_succ hj)
          · exact ⟨hposition, hwhy⟩
          · exact hbefore j hlt
    · rw [segmentSource_of_not_hasPosition hposition]
      exact ⟨i, by omega, hbefore, .inr ⟨hposition, rfl, rfl⟩⟩

/-- This is how every registration ends. -/
theorem ends (hid : g.space ∈ s.spaces) (hstart : g.start.toNat < Word.limit) :
    g.Ends s (mapSegment g.space g.file g.offset g.start g.readBytes g.zeroBytes g.writable s) := by
  by_cases hsize : g.size < Word.limit
  · have hadd : Word.add g.readBytes g.zeroBytes = .ok g.size := if_pos hsize
    rw [mapSegment, hadd, word_ok_bind]
    by_cases hrequest : g.IsRequest
    · have hright : ¬ (g.size % pageSize ≠ 0 ∨ g.start.offset ≠ 0 ∨ g.offset % pageSize ≠ 0) := by
        simp [hrequest.size_aligned, hrequest.start_aligned, hrequest.offset_aligned]
      have hpages := segmentPages_ends hid hrequest.start_aligned (Nat.zero_add _)
        (by simpa [PageRun.addr, run] using hstart) fun j hj => absurd hj (Nat.not_lt_zero j)
      rw [PageRun.lay, System.withPages_self, count] at hpages
      rw [if_neg hright]
      change g.Ends s ((_ >>= fun _ => note _) s)
      cases hresult : segmentPages g.space g.start g.writable g.file g.offset g.readBytes (g.size / pageSize) 0 s with
      | ok _ t =>
        simp only [hresult] at hpages
        obtain ⟨hfits, rfl⟩ := hpages
        rw [bind_eq_of_eq_ok hresult]
        exact .registered hsize hrequest hfits
      | error f t =>
        simp only [hresult] at hpages
        rw [bind_eq_of_eq_error hresult]
        obtain ⟨i, hi, hbefore, ⟨hposition, rfl, e, hrefused, rfl⟩ | ⟨hposition, rfl, rfl⟩⟩ := hpages
        · exact .refused hsize hrequest hi hposition hrefused hbefore
        · exact .position hsize hrequest hi hposition hbefore
    · have hwrong : g.size % pageSize ≠ 0 ∨ g.start.offset ≠ 0 ∨ g.offset % pageSize ≠ 0 := by
        by_contra h
        simp only [ne_eq, not_or, not_not] at h
        exact hrequest ⟨h.1, h.2.1, h.2.2⟩
      rw [if_pos hwrong]
      exact .invalid hsize hrequest
  · have hadd : Word.add g.readBytes g.zeroBytes = .error .add := if_neg hsize
    rw [mapSegment, hadd]
    exact .size (Nat.not_lt.1 hsize)

/-- A segment whose numbers are words is refused and nothing happens, or it is registered. -/
theorem wp_mapSegment (hid : g.space ∈ s.spaces) (hsize : g.size < Word.limit)
    (hread : g.offset + g.readBytes < Word.limit) (hstart : g.start.toNat < Word.limit) :
    wp (mapSegment g.space g.file g.offset g.start g.readBytes g.zeroBytes g.writable) s
      (fun _ t => g.IsRequest ∧ g.Registers s t) fun f t => t = s ∧ ∃ e, f = .error e ∧ g.Refused s e := by
  have hends := ends hid hstart (g := g)
  unfold wp
  generalize mapSegment g.space g.file g.offset g.start g.readBytes g.zeroBytes g.writable s = r at hends ⊢
  cases hends with
  | size hover => exact absurd hsize (Nat.not_lt.2 hover)
  | invalid _ hrequest => exact ⟨rfl, _, rfl, .invalid hrequest⟩
  | refused _ hrequest hi _ hrefused hbefore =>
    exact ⟨rfl, _, rfl, .page hrequest hi hrefused fun j hj => (hbefore j hj).free⟩
  | position _ _ _ hposition => exact absurd (hasPosition hread.le _) hposition
  | registered _ hrequest hfits =>
    exact ⟨hrequest, registers hid fun i hi => pageRefusal?_eq_none_iff.1 (hfits i hi).free⟩

end Segment

/-! ### Pages that show their part -/

/-- The page at `p` is to be loaded by `source`, or it was loaded and holds `content`. -/
inductive View.Offers (v : View) (p : PageId) (source : Source) (content : PageContent) : Prop
  | described {page : PageEntry} (hpage : v.pages p = some page) (hkind : page.kind = .pending (.anon source))
  | loaded (hcontent : v.memory p = some content)

namespace View.Offers

variable {v w : View} {p : PageId} {source : Source} {content : PageContent}

theorem isSome (h : v.Offers p source content) : (v.pages p).isSome := by
  cases h with
  | described hpage => exact Option.isSome_of_eq_some hpage
  | loaded hcontent =>
    obtain ⟨page, hpage, -⟩ := Option.bind_eq_some_iff.1 hcontent
    exact Option.isSome_of_eq_some hpage

/-- A page that was loaded holds its part. -/
theorem memory_eq (h : v.Offers p source content) (hloaded : v.IsLoaded p) : v.memory p = some content := by
  cases h with
  | described hpage hkind =>
    obtain ⟨page', hpage', hkind'⟩ := hloaded
    cases hpage.symm.trans hpage'
    rw [hkind] at hkind'
    cases hkind'
  | loaded hcontent => exact hcontent

theorem congr (h : v.Offers p source content) (hpages : w.pages p = v.pages p) (hmemory : w.memory p = v.memory p) :
    w.Offers p source content := by
  cases h with
  | described hpage hkind => exact .described (hpages.trans hpage) hkind
  | loaded hcontent => exact .loaded (hmemory.trans hcontent)

end View.Offers

section Steps

variable {v w : View} {p : PageId} {source : Source} {content : PageContent} {d : Deed} {ds : List Deed} {f : FileId}

theorem stored_eq_self {sts : List Store} (h : ∀ st ∈ sts, st.page ≠ p) : stored p content sts = content := by
  induction sts with
  | nil => rfl
  | cons st sts ih =>
    rw [stored_cons, Store.lay, if_neg (h st (List.mem_cons_self ..))]
    exact ih fun st' hst' => h st' (List.mem_cons_of_mem _ hst')

theorem Upkeep.offers (h : Upkeep v w) (hv : v.Sound) (hoffer : v.Offers p source content) :
    w.Offers p source content := by
  cases hoffer with
  | @described page hpage hkind =>
    refine .described ((h.pages_eq fun page' hpage' => ?_).trans hpage) hkind
    obtain rfl : page = page' := Option.some.inj (hpage.symm.trans hpage')
    cases hframe : page.frame with
    | none => rfl
    | some pa =>
      have hloaded := hv.isPending_of_frame hpage hframe
      rw [hkind] at hloaded
      cases hloaded
  | loaded hcontent => exact .loaded ((congrFun (h.memory_eq hv) p).trans hcontent)

/-- A page that is loaded for the first time holds what its source produces from the file. -/
theorem View.Loads.memory_of_described {pa : PhysAddr} {fresh : Option PageContent} {page : PageEntry}
    (h : v.Loads p pa fresh w) (hv : v.Sound) (hpage : v.pages p = some page)
    (hkind : page.kind = .pending (.anon source)) (hsource : ∀ x, source = .file x → x.file = f) :
    w.memory p = some (source.content (v.file f).data) := by
  have hfresh : fresh = some (source.content (v.file f).data) := by
    cases h with
    | @load page' content kind v' _ hpage' _ _ hfills =>
      obtain rfl : page = page' := Option.some.inj (hpage.symm.trans hpage')
      rw [hkind] at hfills ⊢
      cases hfills with
      | zero => rfl
      | source => rw [← hsource _ rfl]; rfl
  rw [h.memory_eq hv, hfresh]
  exact Function.update_self ..

/-- A page shows its part as long as it is not removed, nothing is stored in it and the file is what it was. -/
theorem Does.offers (h : Does d v w) (hv : v.Sound) (hsource : ∀ x, source = .file x → x.file = f)
    (hcontent : source.content (v.file f).data = content) (hkept : d ≠ .remove p)
    (hstores : ∀ st ∈ d.store?, st.page ≠ p) (hoffer : v.Offers p source content) : w.Offers p source content := by
  cases hoffer with
  | loaded hmemory =>
    have hsame : w.memory p = some (stored p content d.store?.toList) := h.memory_eq_stored hv hmemory hkept
    rw [stored_eq_self fun st hst => hstores st (Option.mem_toList.1 hst)] at hsame
    exact .loaded hsame
  | @described page hpage hkind =>
    obtain ⟨page', hpage', hcontinues, hruns⟩ := h.continues hpage hkept
    cases hpending : page'.kind.isPending with
    | true => exact .described hpage' ((hcontinues.pending hpending).trans hkind)
    | false =>
      -- the page was loaded, and only a deed that loads it can have done that
      rw [hpending, hkind] at hruns
      cases h with
      | @load q pa fresh _ _ hloads =>
        by_cases hq : q = p
        · subst hq
          exact .loaded ((hloads.memory_of_described hv hpage hkind hsource).trans (congrArg some hcontent))
        · rw [Deed.loaderRuns, if_neg hq] at hruns
          cases hruns
      | _ => cases hruns

/-- A page goes on to show its part as long as it is not removed, nothing is stored in it and the file is not written. -/
theorem Trace.offers (h : Trace v ds w) (hv : v.Sound) (hsource : ∀ x, source = .file x → x.file = f)
    (hcontent : source.content (v.file f).data = content)
    (hwrites : (w.file f).traffic.writes = (v.file f).traffic.writes) (hkept : .remove p ∉ ds)
    (hstores : ∀ st ∈ storesOf ds, st.page ≠ p) (hoffer : v.Offers p source content) : w.Offers p source content := by
  induction h with
  | done => exact hoffer
  | @upkeep v x w ds hstep hrest ih =>
    have hserved := hstep.served f
    have hle := hserved.writes_le
    have hle' := (hrest.served f).writes_le
    exact ih (hstep.sound hv) (hserved.data_eq (by omega) ▸ hcontent) (by omega) hkept hstores (hstep.offers hv hoffer)
  | @deed v x w d ds hdeed hrest ih =>
    have hserved := hdeed.served f
    have hle := hserved.writes_le
    have hle' := (hrest.served f).writes_le
    rw [List.mem_cons, not_or] at hkept
    rw [storesOf_cons] at hstores
    refine ih (hdeed.sound hv) (hserved.data_eq (by omega) ▸ hcontent) (by omega) hkept.2
      (fun st hst => hstores st (List.mem_append_right _ hst)) ?_
    exact hdeed.offers hv hsource hcontent (Ne.symm hkept.1)
      (fun st hst => hstores st (List.mem_append_left _ (Option.mem_toList.2 hst))) hoffer

end Steps

/-! ### Segments -/

namespace Segment

variable {g : Segment} {data : Bytes} {s t u : System} {k n : Nat}

/-- The file has the bytes `data`, and each page of the segment shows its part of the image over them. -/
structure Stands (g : Segment) (data : Bytes) (s : System) : Prop where
  file : (s.file g.file).data = data
  offers : ∀ i < g.count, s.view.Offers (g.place i) (g.source i) (g.content data i)

/-- From `s` on, calls and devices lead to `t`. The pages of the segment are in the table whenever a call ends, nothing
is stored in them, and the file is not modified. -/
inductive Rests (g : Segment) (s : System) : System → Prop
  | here : Rests g s s
  | call {t : System} (h : Rests g s t) {c : Call} (hc : c.Admissible t)
    (hpages : ∀ i < g.count, ((c.outcome t).2.page? (g.place i)).isSome)
    (hstores : ∀ st ∈ c.stores, ¬ g.IsPlace st.page)
    (hwrites : ((c.outcome t).2.file g.file).traffic.writes = (t.file g.file).traffic.writes) :
    Rests g s (c.outcome t).2
  | device {t u : System} (h : Rests g s t) (ht : t.Device u) (hdata : (u.file g.file).data = (t.file g.file).data) :
    Rests g s u

theorem file_of_source {i : Nat} {w : FileWindow} (h : g.source i = .file w) : w.file = g.file := by
  unfold source at h
  split at h
  · cases h
  · cases h
    rfl

/-- The pages of a segment that was just registered are still to be loaded. -/
theorem Registers.stands (h : g.Registers s t) : g.Stands (s.file g.file).data t where
  file := by
    have hfiles : t.view.files = s.view.files := by rw [h.view]
    rw [← System.file_view, View.file, hfiles]
    rfl
  offers i hi := .described (h.page i hi) rfl

namespace Stands

/-- The image is left alone by what neither writes the file, nor removes pages of the segment, nor stores in them. -/
theorem trace {ds : List Deed} (h : g.Stands data s) (hv : s.view.Sound) (hend : g.offset + g.readBytes ≤ data.length)
    (htrace : Trace s.view ds t.view) (hwrites : (t.file g.file).traffic.writes = (s.file g.file).traffic.writes)
    (hkept : ∀ i < g.count, .remove (g.place i) ∉ ds) (hstores : ∀ st ∈ storesOf ds, ¬ g.IsPlace st.page) :
    g.Stands data t where
  file := ((htrace.served g.file).data_eq hwrites).trans h.file
  offers i hi := htrace.offers hv (fun _ => file_of_source)
    ((congrArg (g.source i).content h.file).trans (g.content_source hend i)) hwrites (hkept i hi)
    (fun st hst heq => hstores st hst ⟨i, hi, heq⟩) (h.offers i hi)

theorem device (h : g.Stands data s) (ht : s.Device t) (hdata : (t.file g.file).data = (s.file g.file).data) :
    g.Stands data t where
  file := hdata.trans h.file
  offers i hi := by
    obtain ⟨files, refuses, hview, -⟩ := ht.view_eq
    rw [hview]
    exact (h.offers i hi).congr rfl rfl

/-- Whatever happens meanwhile, the segment shows the same image as long as its pages and its file are left alone. -/
theorem rests (h : g.Stands data s) (hs : s.WellFormed) (hv : s.view.Sound)
    (hend : g.offset + g.readBytes ≤ data.length) (hrests : g.Rests s t) :
    t.WellFormed ∧ t.view.Sound ∧ g.Stands data t := by
  induction hrests with
  | here => exact ⟨hs, hv, h⟩
  | @call t _ c hc hpages hstores hwrites ih =>
    obtain ⟨ht, hv', hstands⟩ := ih
    obtain ⟨hu, ds, htrace, hexplains⟩ := System.exists_explains ht hv' hc
    refine ⟨hu, htrace.sound hv', hstands.trace hv' hend htrace hwrites (fun i hi => ?_) fun st hst => ?_⟩
    · exact hexplains.remove_notMem hv' htrace (hstands.offers i hi).isSome (hpages i hi)
    · exact hstores st (hexplains.stores.subset hst)
  | device _ ht hdata ih => exact ⟨ht.wellFormed ih.1, ht.sound ih.2.1, ih.2.2.device ht hdata⟩

/-- A page of the segment that was loaded holds its part, and it says so for each of its bytes. -/
theorem memory_eq (h : g.Stands data s) (hrequest : g.IsRequest) (hk : k < g.size)
    (hloaded : s.view.IsLoaded ⟨g.space, (⟨g.start.toNat + k⟩ : VirtAddr).pageDown⟩) :
    s.view.memory ⟨g.space, (⟨g.start.toNat + k⟩ : VirtAddr).pageDown⟩ = some (g.content data (k / pageSize)) := by
  rw [(pageDown_add hrequest.start_aligned k).1] at hloaded ⊢
  exact (h.offers _ (div_lt_count hrequest.size_aligned hk)).memory_eq hloaded

/-- Any byte of the segment may be read. -/
theorem not_denies (h : g.Stands data s) (hv : s.view.Sound) (hrequest : g.IsRequest) (hk : k < g.size) (e : Errno) :
    ¬ (s.space g.space).Denies false (g.start.toNat + k) e := by
  obtain ⟨hpage, -⟩ := pageDown_add hrequest.start_aligned k
  have hsome := (h.offers _ (div_lt_count hrequest.size_aligned hk)).isSome
  rw [← hpage] at hsome
  obtain ⟨page, hpage'⟩ := Option.isSome_iff_exists.1 hsome
  have huser := (hv.page hpage').2.user
  exact Space.not_denies_iff.2 ⟨VirtAddr.lt_kernelBase huser, page, hpage', fun h => by cases h⟩ e

/-- Bytes that were read are those of the image. -/
theorem prefix_of_reads (h : g.Stands data s) (hrequest : g.IsRequest) (hend : g.offset + g.readBytes ≤ data.length)
    (hk : k + n ≤ g.size) {bytes : Bytes} (hlength : bytes.length ≤ n)
    (hreads : Reads g.space (g.start.toNat + k) bytes s.view.memory)
    (hloaded : ∀ j < bytes.length, s.view.IsLoaded ⟨g.space, (⟨g.start.toNat + k + j⟩ : VirtAddr).pageDown⟩) :
    bytes <+: ((g.image data).drop k).take n := by
  refine List.prefix_iff_getElem?.2 fun j hj => ?_
  have hloaded' := hloaded j hj
  rw [Nat.add_assoc] at hloaded'
  have hbyte := hreads j _ (List.getElem?_eq_getElem hj) _
    (by rw [Nat.add_assoc]; exact h.memory_eq hrequest (by omega) hloaded')
  rw [Nat.add_assoc, (pageDown_add hrequest.start_aligned (k + j)).2] at hbyte
  rw [List.getElem?_take_of_lt (by omega), List.getElem?_drop, getElem?_image (by omega) hend, hbyte]

/-- The kernel reads the image, unless a page cannot be loaded. -/
theorem copyFromUser (h : g.Stands data s) (hs : s.WellFormed) (hv : s.view.Sound) (hrequest : g.IsRequest)
    (hend : g.offset + g.readBytes ≤ data.length) (hk : k + n ≤ g.size) :
    ∃ tr t, Paging.copyFromUser g.space ⟨g.start.toNat + k⟩ n s = .ok tr t ∧
      ((t.file g.file).traffic.writes = (s.file g.file).traffic.writes →
        tr.bytes <+: ((g.image data).drop k).take n) ∧
      (tr.failure = none → tr.bytes.length = n) ∧
      ∀ f, tr.failure = some f → (UserCopy.read n).LoadFails g.space ⟨g.start.toNat + k⟩ s f := by
  have hcopy := performs_copyFromUser hs hv g.space ⟨g.start.toNat + k⟩ n
  have hends : Paging.wp ((UserCopy.read n).run g.space ⟨g.start.toNat + k⟩) s _ _ :=
    UserCopy.wp_run_denied hs hv (.read n)
  cases hrun : Paging.copyFromUser g.space ⟨g.start.toNat + k⟩ n s with
  | error f t =>
    obtain ⟨-, ds, -, -, -, -, tr, hr, -⟩ := hcopy.of_error hrun
    cases hr
  | ok tr t =>
    obtain ⟨-, ds, htrace, haccesses, hstores, -, tr', hr, hreads, hlength, hcomplete, hloaded⟩ := hcopy.of_ok hrun
    cases hr
    refine ⟨tr, t, rfl, fun hwrites => ?_, hcomplete, fun f hf => ?_⟩
    · have hstands : g.Stands data t := by
        refine h.trace hv hend htrace hwrites (fun i hi => ?_) fun st hst => ?_
        · exact htrace.remove_notMem haccesses.undoes not_false (h.offers i hi).isSome
        · rw [hstores] at hst
          cases hst
      exact hstands.prefix_of_reads hrequest hend hk hlength hreads hloaded
    · have hfails : (UserCopy.read n).run g.space ⟨g.start.toNat + k⟩ s = .error f t := by
        rw [UserCopy.run, bind_eq_of_eq_ok hrun, hf]
        rfl
      obtain ⟨e, -, j, t', hj, -, hdenies⟩ | hload := hends.of_error hfails
      · have hj' : k + j < g.size := by change j < n at hj; omega
        exact absurd (Nat.add_assoc .. ▸ hdenies) (h.not_denies hv hrequest hj' e)
      · exact hload

/-- A program reads the image, unless a page cannot be claimed. -/
theorem load (h : g.Stands data s) (hs : s.WellFormed) (hv : s.view.Sound) (hrequest : g.IsRequest)
    (hend : g.offset + g.readBytes ≤ data.length) (hk : k < g.size) (sp : Nat) :
    match (Call.load g.space ⟨g.start.toNat + k⟩ sp).outcome s with
    | (.ok a, t) => (t.file g.file).traffic.writes = (s.file g.file).traffic.writes →
        ∃ b, a = .byte b ∧ (g.image data)[k]? = some b
    | (.error f, _) => g.start.toNat + k = 0 ∨ ∃ page, s.page? (g.place (k / pageSize)) = some page ∧
        s.view.ClaimFails (g.place (k / pageSize)) page.kind f := by
  obtain ⟨hpage, hoffset⟩ := pageDown_add hrequest.start_aligned k
  obtain ⟨page, hpage'⟩ := Option.isSome_iff_exists.1 (h.offers _ (div_lt_count hrequest.size_aligned hk)).isSome
  have hadmissible : (Call.load g.space ⟨g.start.toNat + k⟩ sp).Admissible s :=
    ⟨fun id hid => Option.mem_some_iff.1 hid ▸ (hv.page hpage').1, fun _ h => (by cases h), fun _ h => by cases h⟩
  obtain ⟨-, ds, htrace, hexplains⟩ := System.exists_explains hs hv hadmissible
  have hundoes := hexplains.undoes.resolve_left not_false
  have hstores : storesOf ds = [] := List.prefix_nil.1 hexplains.stores
  have htells := hexplains.tells
  generalize (Call.load g.space ⟨g.start.toNat + k⟩ sp).outcome s = o at htrace htells ⊢
  obtain ⟨r, t⟩ := o
  cases r with
  | ok a =>
    intro hwrites
    have hstands : g.Stands data t := by
      refine h.trace hv hend htrace hwrites (fun i hi => ?_) fun st hst => ?_
      · exact htrace.remove_notMem hundoes not_false (h.offers i hi).isSome
      · rw [hstores] at hst
        cases hst
    obtain ⟨b, rfl, ⟨content, hshows, -⟩, hbyte⟩ := htells
    have hcontent := hbyte _ (hstands.memory_eq hrequest hk (hshows.isLoaded (htrace.sound hv)))
    refine ⟨b, rfl, ?_⟩
    rw [getElem?_image hk hend, ← hcontent, VirtAddr.offset, hoffset]
  | error f =>
    rw [← hpage] at hpage' ⊢
    obtain hzero | hkernel | hfails := htells page hpage'
    · exact .inl hzero
    · exact absurd (VirtAddr.lt_kernelBase (hv.page hpage').2.user) (Nat.not_lt.2 hkernel)
    · exact .inr ⟨page, hpage', hfails⟩

end Stands

/-- What is read of the segment in `s` is `image`. -/
structure Shows (g : Segment) (image : Bytes) (s : System) : Prop where
  /-- Each page that was loaded holds its part, in a frame or on the disk. -/
  holds : ∀ i < g.count, s.view.IsLoaded (g.place i) →
    s.Holds (g.place i) (Content.ofBytes pageSize (image.drop (i * pageSize)))
  /-- The kernel reads what it asks for, unless a page cannot be loaded or the file is modified meanwhile. -/
  copied : ∀ k n, k + n ≤ g.size → ∃ tr t, Paging.copyFromUser g.space ⟨g.start.toNat + k⟩ n s = .ok tr t ∧
    ((t.file g.file).traffic.writes = (s.file g.file).traffic.writes → tr.bytes <+: (image.drop k).take n) ∧
    (tr.failure = none → tr.bytes.length = n) ∧
    ∀ f, tr.failure = some f → (UserCopy.read n).LoadFails g.space ⟨g.start.toNat + k⟩ s f
  /-- So does a program. -/
  loaded : ∀ k < g.size, ∀ sp, match (Call.load g.space ⟨g.start.toNat + k⟩ sp).outcome s with
    | (.ok a, t) => (t.file g.file).traffic.writes = (s.file g.file).traffic.writes →
        ∃ b, a = .byte b ∧ image[k]? = some b
    | (.error f, _) => g.start.toNat + k = 0 ∨ ∃ page, s.page? (g.place (k / pageSize)) = some page ∧
        s.view.ClaimFails (g.place (k / pageSize)) page.kind f

end Segment

namespace System

variable {s : System} {g : Segment}

/-- A segment is registered as a whole or not at all. If it is refused, the system is what it was: these are not whole
pages, or one of the pages is not in user memory or is there already. If it is registered, its pages are described and
nothing else has changed. From then on, if the file has all the bytes that were asked for and is not modified, whatever is
read of the segment is its image, in whatever order the pages are loaded, and wherever they go in between. -/
theorem registers_image (hid : g.space ∈ s.spaces) (hsize : g.readBytes + g.zeroBytes < Word.limit)
    (hread : g.offset + g.readBytes < Word.limit) (hstart : g.start.toNat < Word.limit) :
    (∀ f t, mapSegment g.space g.file g.offset g.start g.readBytes g.zeroBytes g.writable s = .error f t →
        t = s ∧ ∃ e, f = .error e ∧ g.Refused s e) ∧
      ∀ a t, mapSegment g.space g.file g.offset g.start g.readBytes g.zeroBytes g.writable s = .ok a t →
        g.IsRequest ∧ g.Registers s t ∧
          (s.Steady → g.offset + g.readBytes ≤ (s.file g.file).data.length →
            ∀ u, g.Rests t u → g.Shows (g.image (s.file g.file).data) u) := by
  have hmap := Segment.wp_mapSegment hid hsize hread hstart
  refine ⟨fun f t h => hmap.of_error h, fun a t h => ?_⟩
  obtain ⟨hrequest, hregisters⟩ := hmap.of_ok h
  refine ⟨hrequest, hregisters, fun hs hend u hrests => ?_⟩
  have hadmissible : (Call.mapSegment g.space g.file g.offset g.start g.readBytes g.zeroBytes g.writable).Admissible s :=
    ⟨fun id hid' => Option.mem_some_iff.1 hid' ▸ hid, fun _ h => (by cases h), fun _ h => by cases h⟩
  obtain ⟨ht, ds, htrace, -⟩ := exists_explains hs.wellFormed hs.sound hadmissible
  have hrun : (Call.mapSegment g.space g.file g.offset g.start g.readBytes g.zeroBytes g.writable).outcome s =
      (.ok .done, t) := by
    rw [Call.outcome, Call.run, bind_eq_of_eq_ok h]
    rfl
  rw [hrun] at ht htrace
  obtain ⟨hu, hv, hstands⟩ := hregisters.stands.rests ht (htrace.sound hs.sound) hend hrests
  exact ⟨fun i hi hloaded => holds_of_memory hv ((hstands.offers i hi).memory_eq hloaded),
    fun k n hk => hstands.copyFromUser hu hv hrequest hend hk,
    fun k hk sp => hstands.load hu hv hrequest hend hk sp⟩

/-- A segment of two pages, the first of which has all the bytes that there are in the file. -/
def program : Segment := ⟨0, 0, 0, ⟨0x10000⟩, 5, 8187, true⟩

/-- A small system with an address space and the file of the program. -/
def beforeProgram : System := (small { data := [1, 2, 3, 4, 5] }).after [.create]

/-- A segment whose second page is loaded first and makes way for the first one still shows its image. It cannot be
registered again. -/
theorem exists_registers_image : ∃ (s t u : System) (g : Segment), s.Steady ∧ g.count = 2 ∧
    mapSegment g.space g.file g.offset g.start g.readBytes g.zeroBytes g.writable s = .ok () t ∧ g.Registers s t ∧
    g.Rests t u ∧ (u.page? (g.place 1)).map PageEntry.kind = some (.anon (some ⟨0⟩)) ∧
    g.Shows (g.image (s.file g.file).data) u ∧ (g.image (s.file g.file).data)[4]? = some 5 ∧
    mapSegment g.space g.file g.offset g.start g.readBytes g.zeroBytes g.writable t = .error (.error .fileExist) t := by
  have hs : beforeProgram.Reachable := (Reachable.initial (initial_small _)).after (by decide +kernel)
  have hdata : (beforeProgram.file 0).data = [1, 2, 3, 4, 5] := by decide +kernel
  obtain ⟨t, hok⟩ : ∃ t, mapSegment 0 0 0 ⟨0x10000⟩ 5 8187 true beforeProgram = .ok () t :=
    exists_of_result (by decide +kernel)
  have ht : t = outcomeOf (mapSegment 0 0 0 ⟨0x10000⟩ 5 8187 true) beforeProgram := by rw [outcomeOf, hok]
  obtain ⟨-, hregisters, himage⟩ :=
    (registers_image (g := program) (s := beforeProgram) (by decide +kernel) (by decide) (by decide) (by decide)).2 _ t hok
  obtain ⟨v, hrefused⟩ : ∃ v, mapSegment 0 0 0 ⟨0x10000⟩ 5 8187 true t = .error (.error .fileExist) v := by
    rw [ht]
    exact exists_of_errno (by decide +kernel)
  obtain ⟨rfl, -⟩ := (registers_image (g := program) (s := t) (by rw [ht]; decide +kernel) (by decide) (by decide)
    (by decide)).1 _ _ hrefused
  have hsecond : program.Rests v ((Call.claim 0 ⟨0x11000⟩).outcome v).2 := by
    refine Segment.Rests.here.call ?_ ?_ (fun _ h => by cases h) ?_ <;> rw [ht] <;> decide +kernel
  have hfirst : program.Rests v (v.after [.claim 0 ⟨0x11000⟩, .claim 0 ⟨0x10000⟩]) := by
    refine hsecond.call (c := .claim 0 ⟨0x10000⟩) ?_ ?_ (fun _ h => by cases h) ?_ <;> rw [ht] <;> decide +kernel
  refine ⟨_, v, _, program, hs.steady, by decide, hok, hregisters, hfirst, ?_, himage hs.steady ?_ _ hfirst, ?_, hrefused⟩
  · rw [ht]
    decide +kernel
  · exact hdata ▸ by decide
  · change (program.image (beforeProgram.file 0).data)[4]? = some 5
    rw [hdata]
    decide +kernel

end System

end DemandPaging
