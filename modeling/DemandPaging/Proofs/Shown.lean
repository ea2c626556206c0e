import DemandPaging.Proofs.Mapping
import DemandPaging.Proofs.Memory
import DemandPaging.Proofs.Serving

/-!
What a mapping shows. The bytes that the file is to have are in the frames of the pages that are resident, and in the
file wherever a page is not resident or was not written since it was loaded.
-/

namespace DemandPaging

namespace Mapping

variable {m : Mapping} {size i j : Nat}

/-- Each window is within the mapped part of the file. -/
theorem window_le (hi : i < m.count) : (m.window i).offset + (m.window i).readBytes ≤ m.offset + m.covered := by
  have hcovered := lt_count_iff.1 hi
  simp only [window, FileWindow.new]
  omega

/-- No two windows overlap. -/
theorem window_disjoint (hij : i ≠ j) :
    (m.window i).offset + (m.window i).readBytes ≤ (m.window j).offset ∨
      (m.window j).offset + (m.window j).readBytes ≤ (m.window i).offset := by
  simp only [window, FileWindow.new]
  rcases Nat.lt_or_gt_of_ne hij with h | h
  · have hle : (i + 1) * pageSize ≤ j * pageSize := Nat.mul_le_mul_right _ h
    rw [Nat.succ_mul] at hle
    omega
  · have hle : (j + 1) * pageSize ≤ i * pageSize := Nat.mul_le_mul_right _ h
    rw [Nat.succ_mul] at hle
    omega

/-- A file in which there is something to map exists. -/
theorem Fits.isSome_file (hm : m.Fits size) {file : Option File} (h : (file.getD {}).data.length = size) :
    file.isSome := by
  cases file with
  | some file => rfl
  | none =>
    have hcovered := hm.covered_ne
    have hle := hm.covered_le
    change 0 = size at h
    omega

/-- The `i`-th page of the mapping, or the file in its stead, has its part of `data`. -/
inductive ShowsPage (m : Mapping) (data : Bytes) (v : View) (i : Nat) : Prop
  | away (hpage : ∀ page, v.pages (m.place i) = some page → page.frame = none ∧ page.kind.window? = some (m.window i))
    (hfile : (m.window i).part (v.file m.file).data = (m.window i).part data)
  | resident {page : PageEntry} {pa : PhysAddr} {e : PageTableEntry} {content : PageContent}
    (hpage : v.pages (m.place i) = some page) (hkind : page.kind = .file (m.window i)) (hframe : page.frame = some pa)
    (hentry : v.entries (m.place i) = some e) (hcontent : v.frames pa = some content)
    (hbytes : (m.window i).bytesOf content = (m.window i).part data)
    (hclean : e.flags.dirty = false → (m.window i).part (v.file m.file).data = (m.window i).part data)

/-- The file and the pages of the mapping together have the bytes `data`, and no other page is over the file. -/
structure Shows (m : Mapping) (data : Bytes) (v : View) : Prop where
  file : (v.files m.file).isSome
  serves : (v.file m.file).Serves
  length : (v.file m.file).data.length = data.length
  /-- Outside of the mapped part, the file itself has the bytes. -/
  outside : ∀ k, k < m.offset ∨ m.offset + m.covered ≤ k → (v.file m.file).data[k]? = data[k]?
  page : ∀ i < m.count, m.ShowsPage data v i
  alone : ∀ {p w}, v.windowOf p = some w → w.file = m.file → m.IsPlace p

variable {data : Bytes} {v w : View}

/-- A page shows what it did as long as it keeps its frame and nothing happens to its part of the file. -/
theorem ShowsPage.congr (h : m.ShowsPage data v i)
    (hfile : (m.window i).part (w.file m.file).data = (m.window i).part (v.file m.file).data)
    (hpage : w.pages (m.place i) = v.pages (m.place i))
    (hentry : ∀ e, v.entries (m.place i) = some e →
      ∃ e', w.entries (m.place i) = some e' ∧ e'.flags.dirty = e.flags.dirty)
    (hframe : ∀ page pa, v.pages (m.place i) = some page → page.frame = some pa → w.frames pa = v.frames pa) :
    m.ShowsPage data w i := by
  cases h with
  | away haway hpart => exact .away (hpage ▸ haway) (hfile.trans hpart)
  | resident hsome hkind hframe' hentry' hcontent hbytes hclean =>
    obtain ⟨e', he', hdirty⟩ := hentry _ hentry'
    exact .resident (hpage.trans hsome) hkind hframe' he' ((hframe _ _ hsome hframe').trans hcontent) hbytes
      fun he => hfile.trans (hclean (hdirty ▸ he))

/-- A page of the mapping is over the window that is its own. -/
theorem ShowsPage.window?_eq (h : m.ShowsPage data v i) {page : PageEntry} (hpage : v.pages (m.place i) = some page) :
    page.kind.window? = some (m.window i) := by
  cases h with
  | away haway => exact (haway page hpage).2
  | resident hpage' hkind =>
    rw [hpage, Option.some.injEq] at hpage'
    rw [hpage', hkind]
    rfl

/-- Where the page was not written since it was loaded, the file has its bytes. -/
theorem ShowsPage.part_of_clean (h : m.ShowsPage data v i) {e : PageTableEntry}
    (hentry : v.entries (m.place i) = some e)
    (hdirty : e.flags.dirty = false) : (m.window i).part (v.file m.file).data = (m.window i).part data := by
  cases h with
  | away _ hfile => exact hfile
  | resident _ _ _ hentry' _ _ hclean =>
    rw [hentry, Option.some.injEq] at hentry'
    exact hclean (hentry' ▸ hdirty)

/-- Where the page is in no frame, the file has its bytes. -/
theorem ShowsPage.part_of_bare (h : m.ShowsPage data v i)
    (hbare : ∀ page, v.pages (m.place i) = some page → page.frame = none) :
    (m.window i).part (v.file m.file).data = (m.window i).part data := by
  cases h with
  | away _ hfile => exact hfile
  | resident hpage _ hframe =>
    rw [hbare _ hpage] at hframe
    cases hframe

/-- Only the bytes under the window matter. -/
theorem ShowsPage.of_part (h : m.ShowsPage data v i) {data' : Bytes}
    (hpart : (m.window i).part data' = (m.window i).part data) : m.ShowsPage data' v i := by
  cases h with
  | away haway hfile => exact .away haway (hpart ▸ hfile)
  | resident hpage hkind hframe hentry hcontent hbytes hclean =>
    exact .resident hpage hkind hframe hentry hcontent (hpart ▸ hbytes) (hpart ▸ hclean)

namespace Shows

/-- A change that concerns neither the file nor which pages are over which windows. -/
theorem congr (h : m.Shows data v) (hfiles : w.files = v.files) (hwindow : w.windowOf = v.windowOf)
    (hpage : ∀ i < m.count, m.ShowsPage data w i) : m.Shows data w where
  file := hfiles ▸ h.file
  serves := by rw [View.file, hfiles]; exact h.serves
  length := by rw [View.file, hfiles]; exact h.length
  outside := by rw [View.file, hfiles]; exact h.outside
  page := hpage
  alone := by rw [hwindow]; exact h.alone

/-- Where there are no pages over the file yet, the file itself has its bytes. -/
theorem start (hm : m.Fits (v.file m.file).data.length) (hserves : (v.file m.file).Serves)
    (hfree : ∀ i < m.count, v.pages (m.place i) = none) (halone : ∀ p f, v.windowOf p = some f → f.file ≠ m.file) :
    m.Shows (v.file m.file).data v where
  file := hm.isSome_file rfl
  serves := hserves
  length := rfl
  outside _ _ := rfl
  page i hi := .away (fun page hpage => by rw [hfree i hi] at hpage; cases hpage) rfl
  alone := fun hf hfile => absurd hfile (halone _ _ hf)

/-- A frame that is no page's gets other bytes or becomes free. -/
theorem setFrame (h : m.Shows data v) {pa : PhysAddr}
    (hpa : ∀ p page pa', v.pages p = some page → page.frame = some pa' → pa' ≠ pa) (content : Option PageContent) :
    m.Shows data (v.setFrame pa content) :=
  h.congr rfl rfl fun i hi => (h.page i hi).congr rfl rfl (fun e he => ⟨e, he, rfl⟩)
    fun page pa' hpage hframe => Function.update_of_ne (hpa _ page pa' hpage hframe) ..

/-- What is in hand, in slots, lent or recorded as a region does not show. -/
theorem of_same (h : m.Shows data v) (hpages : w.pages = v.pages) (hentries : w.entries = v.entries)
    (hframes : w.frames = v.frames) (hfiles : w.files = v.files) : m.Shows data w := by
  have hwindow : w.windowOf = v.windowOf := by
    funext p
    rw [View.windowOf, View.windowOf, hpages]
  have hfile : w.file m.file = v.file m.file := by rw [View.file, hfiles, ← View.file]
  exact h.congr hfiles hwindow fun i hi => (h.page i hi).congr (by rw [hfile]) (congrFun hpages _)
    (fun e he => ⟨e, hentries ▸ he, rfl⟩) fun page pa _ _ => congrFun hframes pa

/-- A page over the file is one of the mapping's, and over the window that is its own. -/
theorem exists_place (h : m.Shows data v) {p : PageId} {page : PageEntry} {w : FileWindow}
    (hpage : v.pages p = some page)
    (hkind : page.kind.window? = some w) (hw : w.file = m.file) : ∃ i < m.count, p = m.place i ∧ w = m.window i := by
  obtain ⟨i, hi, rfl⟩ := h.alone (p := p) (by rw [View.windowOf, hpage]; exact hkind) hw
  rw [(h.page i hi).window?_eq hpage] at hkind
  exact ⟨i, hi, rfl, (Option.some.inj hkind).symm⟩

/-- The file is read, or something happens to another file. -/
theorem setFile (h : m.Shows data v) {f : FileId} {file : File}
    (hfile : f = m.file → file.Serves ∧ file.data = (v.file m.file).data) : m.Shows data (v.setFile f file) := by
  by_cases hf : f = m.file
  · subst hf
    obtain ⟨hserves, hdata⟩ := hfile rfl
    have hset : (v.setFile m.file file).file m.file = file := by simp [View.file_setFile, h.file]
    refine ⟨by simp [h.file], by rw [hset]; exact hserves, ?_, ?_,
      fun i hi => (h.page i hi).congr ?_ rfl (fun e he => ⟨e, he, rfl⟩)
      fun _ _ _ _ => rfl, h.alone⟩
    · rw [hset, hdata, h.length]
    · rw [hset, hdata]
      exact h.outside
    · rw [hset, hdata]
  · have hset : (v.setFile f file).file m.file = v.file m.file := by simp [View.file_setFile, Ne.symm hf]
    refine ⟨by simp [Ne.symm hf, h.file], hset ▸ h.serves, hset ▸ h.length, hset ▸ h.outside,
      fun i hi => (h.page i hi).congr (by rw [hset]) rfl (fun e he => ⟨e, he, rfl⟩) fun _ _ _ _ => rfl, h.alone⟩

/-- Files change that are not the mapping's. -/
theorem withFiles (h : m.Shows data v) (hm : m.Fits data.length) {files : FileId → Option File}
    (hserves : ((files m.file).getD {}).Serves) (hdata : ((files m.file).getD {}).data = (v.file m.file).data) :
    m.Shows data { v with files := files } where
  file := hm.isSome_file ((congrArg List.length hdata).trans h.length)
  serves := hserves
  length := (congrArg List.length hdata).trans h.length
  outside k hk := (congrArg (·[k]?) hdata).trans (h.outside k hk)
  page i hi := (h.page i hi).congr (congrArg (m.window i).part hdata) rfl (fun e he => ⟨e, he, rfl⟩) fun _ _ _ _ => rfl
  alone := h.alone

theorem readWindow (h : m.Shows data v) (w : FileWindow) : m.Shows data (v.readWindow w) :=
  h.setFile fun hf => ⟨hf ▸ h.serves.read _ _, hf ▸ (File.read_spec _ _ _).1⟩

/-- A write through a window of the mapping does not fail. -/
theorem not_failedToWrite (h : m.Shows data v) (hm : m.Fits data.length) (hi : i < m.count) {content : PageContent}
    (hlimit : (m.window i).offset + (m.window i).readBytes < Word.limit) :
    ¬ v.FailedToWrite (m.window i) content w := by
  have hend : (m.window i).offset + ((m.window i).bytesOf content).length ≤ (v.file m.file).size := by
    rw [FileWindow.length_bytesOf, File.size, h.length]
    exact (window_le hi).trans hm.covered_le
  obtain ⟨f, _, _, hwrite⟩ := h.serves.write ((m.window i).length_bytesOf content ▸ hlimit) hend
  rintro ⟨hfailed⟩
  rw [show (m.window i).file = m.file from rfl, hwrite] at hfailed
  cases hfailed

/-- A write that fails concerns another file. -/
theorem failedToWrite (h : m.Shows data v) (hm : m.Fits data.length) {p : PageId} {page : PageEntry} {f : FileWindow}
    {content : PageContent} (hv : v.Sound) (hpage : v.pages p = some page) (hkind : page.kind = .file f)
    (hwrite : v.FailedToWrite f content w) : m.Shows data w ∧ ¬ m.IsPlace p := by
  have hfile : f.file ≠ m.file := fun hf => by
    obtain ⟨i, hi, rfl, rfl⟩ := h.exists_place hpage (by rw [hkind]; rfl) hf
    exact h.not_failedToWrite hm hi (hv.window_lt_limit hpage hkind) hwrite
  refine ⟨?_, ?_⟩
  · cases hwrite with
    | stopped => exact h.setFile fun hf => absurd hf hfile
  · rintro ⟨i, hi, rfl⟩
    have hwindow := (h.page i hi).window?_eq hpage
    rw [hkind] at hwindow
    exact hfile (congrArg FileWindow.file (Option.some.inj hwindow))

/-- What was written through a window of the mapping is in the file, and the rest of the file is as it was. -/
theorem write (h : m.Shows data v) (hm : m.Fits data.length) (hi : i < m.count) {page : PageEntry} {pa : PhysAddr}
    {content : PageContent} (hlimit : (m.window i).offset + (m.window i).readBytes < Word.limit)
    (hpage : v.pages (m.place i) = some page) (hframe : page.frame = some pa)
    (hcontent : v.frames pa = some content) (hwrite : v.WroteBack (m.window i) content w) :
    m.Shows data w ∧ (m.window i).part (w.file m.file).data = (m.window i).part data := by
  have hlength : (v.file m.file).data.length = data.length := h.length
  have hend : (m.window i).offset + (m.window i).readBytes ≤ data.length := (window_le hi).trans hm.covered_le
  have hbytes : (m.window i).bytesOf content = (m.window i).part data := by
    cases h.page i hi with
    | away haway =>
      rw [(haway page hpage).1] at hframe
      cases hframe
    | resident hpage' _ hframe' _ hcontent' hbytes =>
      rw [hpage, Option.some.injEq] at hpage'
      rw [← hpage', hframe, Option.some.injEq] at hframe'
      rw [← hframe', hcontent, Option.some.injEq] at hcontent'
      rw [hcontent', hbytes]
  cases hwrite with
  | nothing hzero => exact ⟨h, by rw [FileWindow.part, FileWindow.part, hzero, List.take_zero, List.take_zero]⟩
  | @bytes n file hwrite =>
    obtain ⟨f, hserves, hdata, hok⟩ := h.serves.write ((m.window i).length_bytesOf content ▸ hlimit)
      (by rw [FileWindow.length_bytesOf, File.size, hlength]; exact hend :
        (m.window i).offset + ((m.window i).bytesOf content).length ≤ (v.file m.file).size)
    rw [show (m.window i).file = m.file from rfl, hok, EStateM.Result.ok.injEq] at hwrite
    obtain ⟨rfl, rfl⟩ := hwrite
    rw [hbytes] at hdata
    have hpart := FileWindow.length_part hend
    have hfits : (m.window i).offset + ((m.window i).part data).length ≤ (v.file m.file).data.length := by
      rwa [hpart, hlength]
    have hset : (v.setFile m.file f).file m.file = f := by simp [View.file_setFile, h.file]
    have hwritten : (m.window i).part f.data = (m.window i).part data := by
      rw [hdata, FileWindow.part_patch hpart (by rw [hlength]; exact hend)]
    rw [show (m.window i).file = m.file from rfl]
    refine ⟨⟨by simp [h.file], by rw [hset]; exact hserves, ?_, fun k hk => ?_, fun j hj => ?_, h.alone⟩,
    by rw [hset, hwritten]⟩
    · rw [hset, hdata, File.length_patch hfits, hlength]
    · have hwindow := window_le hi
      have hlow : m.offset ≤ (m.window i).offset := Nat.le_add_right ..
      rw [hset, hdata, File.getElem?_patch hfits, if_neg (by omega), h.outside k hk]
    · by_cases hij : i = j
      · subst hij
        cases h.page i hi with
        | away haway _ => exact .away haway (by rw [hset, hwritten])
        | resident hpage' hkind hframe' hentry hcontent' hbytes' _ =>
          exact .resident hpage' hkind hframe' hentry hcontent' hbytes' fun _ => by rw [hset, hwritten]
      · refine (h.page j hj).congr ?_ rfl (fun e he => ⟨e, he, rfl⟩) fun _ _ _ _ => rfl
        rw [hset, hdata]
        exact FileWindow.part_patch_of_disjoint hfits (by rw [hpart]; exact window_disjoint hij)

/-- A page that is written back: if it is one of the mapping's, its bytes are in the file then. -/
theorem wroteBack (h : m.Shows data v) (hm : m.Fits data.length) (hv : v.Sound) {p : PageId} {page : PageEntry}
    {pa : PhysAddr} {f : FileWindow} {content : PageContent} (hpage : v.pages p = some page) (hkind : page.kind = .file f)
    (hframe : page.frame = some pa) (hcontent : v.frames pa = some content) (hwrite : v.WroteBack f content w) :
    m.Shows data w ∧
      ∀ i < m.count, p = m.place i → (m.window i).part (w.file m.file).data = (m.window i).part data := by
  by_cases hf : f.file = m.file
  · obtain ⟨i, hi, rfl, rfl⟩ := h.exists_place hpage (by rw [hkind]; rfl) hf
    obtain ⟨hshows, hpart⟩ := h.write hm hi (hv.window_lt_limit hpage hkind) hpage hframe hcontent hwrite
    refine ⟨hshows, fun j _ hj => ?_⟩
    obtain rfl := place_inj.1 hj
    exact hpart
  · refine ⟨?_, fun i hi hp => ?_⟩
    · cases hwrite with
      | nothing => exact h
      | bytes => exact h.setFile fun hf' => absurd hf' hf
    · subst hp
      have hwindow := (h.page i hi).window?_eq hpage
      rw [hkind] at hwindow
      exact absurd (congrArg FileWindow.file (Option.some.inj hwindow)) hf

/-- A page leaves its frame. If it is one of the mapping's, its bytes are in the file. -/
theorem vacate (h : m.Shows data v) {p : PageId} {page : PageEntry} {pa : PhysAddr} (hpage : v.pages p = some page)
    (hpart : ∀ i < m.count, p = m.place i → (m.window i).part (v.file m.file).data = (m.window i).part data)
    {page' : Option PageEntry}
    (hpage' : ∀ q, page' = some q → q.frame = none ∧ q.kind.window? = page.kind.window?) :
    m.Shows data (v.vacate p pa page') where
  file := h.file
  serves := h.serves
  length := h.length
  outside := h.outside
  page i hi := by
    by_cases hp : p = m.place i
    · subst hp
      refine .away (fun q hq => ?_) (hpart i hi rfl)
      obtain ⟨hframe, hwindow⟩ := hpage' q (by simpa [View.vacate] using hq)
      exact ⟨hframe, hwindow.trans ((h.page i hi).window?_eq hpage)⟩
    · refine (h.page i hi).congr rfl (by simp [View.vacate, Ne.symm hp])
        (fun e he => ⟨e, by simpa [View.vacate, Ne.symm hp] using he, rfl⟩) fun _ _ _ _ => rfl
  alone := fun {q f} hf hfile => by
    refine h.alone (p := q) (w := f) ?_ hfile
    by_cases hq : q = p
    · subst hq
      simp only [View.windowOf, View.vacate, View.hold_pages, View.setPage_pages, Function.update_self] at hf
      obtain ⟨r, hr, hwindow⟩ := Option.bind_eq_some_iff.1 hf
      rw [View.windowOf, hpage, Option.bind_some, ← (hpage' r hr).2, hwindow]
    · simpa [View.windowOf, View.vacate, hq] using hf

/-- A page appears, changes or goes away that is in no frame. -/
theorem setPage (h : m.Shows data v) {p : PageId} {page' : Option PageEntry}
    (hplace : ∀ i < m.count, p = m.place i →
      (∀ q, page' = some q → q.frame = none ∧ q.kind.window? = some (m.window i)) ∧
        ∀ page, v.pages p = some page → page.frame = none)
    (halone : ∀ q f, page' = some q → q.kind.window? = some f → f.file = m.file → m.IsPlace p) :
    m.Shows data (v.setPage p page') where
  file := h.file
  serves := h.serves
  length := h.length
  outside := h.outside
  page i hi := by
    by_cases hp : p = m.place i
    · subst hp
      obtain ⟨hpage', hbare⟩ := hplace i hi rfl
      exact .away (fun q hq => hpage' q (by simpa using hq)) ((h.page i hi).part_of_bare hbare)
    · exact (h.page i hi).congr rfl (by simp [Ne.symm hp]) (fun e he => ⟨e, he, rfl⟩) fun _ _ _ _ => rfl
  alone := fun {q f} hf hfile => by
    by_cases hq : q = p
    · subst hq
      simp only [View.windowOf, View.setPage_pages, Function.update_self] at hf
      obtain ⟨r, hr, hwindow⟩ := Option.bind_eq_some_iff.1 hf
      exact halone r f hr hwindow hfile
    · exact h.alone (p := q) (by simpa [View.windowOf, hq] using hf) hfile

/-- A page comes to be in a frame. If it is one of the mapping's, the frame has the bytes that it is to have. -/
theorem lodge (h : m.Shows data v) {p : PageId} {pa : PhysAddr} {page : PageEntry} {e : PageTableEntry}
    {content : PageContent} (hcontent : v.frames pa = some content)
    (hplace : ∀ i < m.count, p = m.place i → page.kind = .file (m.window i) ∧ page.frame = some pa ∧
      (m.window i).bytesOf content = (m.window i).part data ∧
      (m.window i).part (v.file m.file).data = (m.window i).part data)
    (halone : ∀ f, page.kind.window? = some f → f.file = m.file → m.IsPlace p) :
    m.Shows data (v.lodge p pa page e) where
  file := h.file
  serves := h.serves
  length := h.length
  outside := h.outside
  page i hi := by
    by_cases hp : p = m.place i
    · subst hp
      obtain ⟨hkind, hframe, hbytes, hpart⟩ := hplace i hi rfl
      exact .resident (e := e) (by simp [View.lodge]) hkind hframe (by simp [View.lodge]) hcontent hbytes fun _ => hpart
    · refine (h.page i hi).congr rfl (by simp [View.lodge, Ne.symm hp])
        (fun e he => ⟨e, by simpa [View.lodge, Ne.symm hp] using he, rfl⟩) fun _ _ _ _ => rfl
  alone := fun {q f} hf hfile => by
    by_cases hq : q = p
    · subst hq
      exact halone f (by simpa [View.windowOf, View.lodge] using hf) hfile
    · exact h.alone (p := q) (by simpa [View.windowOf, View.lodge, hq] using hf) hfile

end Shows

end Mapping

end DemandPaging
