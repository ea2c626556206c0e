import DemandPaging.Proofs.Requests
import DemandPaging.Proofs.WriteBack

/-!
Pages over the same part of a file. A page shows what it held and what was stored in it as long as no other page is
written back under its window: from its frame, from the file while it is in no frame, and from its frame again.
-/

namespace DemandPaging

/-- No byte of a file is under both windows. -/
def FileWindow.Apart (f w : FileWindow) : Prop :=
  f.file = w.file → ∀ j, f.offset ≤ j → j < f.offset + f.readBytes → w.offset ≤ j → w.offset + w.readBytes ≤ j

/-- The page at `p` has the bytes of `c` under the window: in its frame, or in the file while it is in no frame. -/
inductive View.HoldsUnder (v : View) (p : PageId) (w : FileWindow) (c : PageContent) : Prop
  | away {page : PageEntry} (hpage : v.pages p = some page) (hwindow : page.kind.window? = some w)
    (hframe : page.frame = none) (hfile : w.part (v.file w.file).data = w.bytesOf c)
  | resident {page : PageEntry} {pa : PhysAddr} {e : PageTableEntry} {content : PageContent}
    (hpage : v.pages p = some page) (hkind : page.kind = .file w) (hframe : page.frame = some pa)
    (hentry : v.entries p = some e) (hcontent : v.frames pa = some content) (hbytes : w.bytesOf content = w.bytesOf c)
    (hclean : e.flags.dirty = false → w.part (v.file w.file).data = w.bytesOf c)

/-- The page at `q` is over the window `f`, and was written since it was loaded. -/
def View.IsWritten (v : View) (q : PageId) (f : FileWindow) : Prop :=
  ∃ page e, v.pages q = some page ∧ page.kind = .file f ∧ v.entries q = some e ∧ e.flags.dirty = true

/-- Of the pages that share bytes of the file under the window, only that at `p` may have been written. -/
def View.OnlyWriter (v : View) (p : PageId) (w : FileWindow) : Prop := ∀ q f, q ≠ p → v.IsWritten q f → f.Apart w

/-- The pages that were written and share bytes of the file under the window all have the bytes of `c` there. -/
def View.Accords (v : View) (w : FileWindow) (c : PageContent) : Prop :=
  ∀ q f, v.IsWritten q f → f.Apart w ∨ v.HoldsUnder q w c

variable {v v' : View} {p : PageId} {w : FileWindow} {c : PageContent} {d : Deed} {ds : List Deed}

/-! ### What steps make of a file -/

theorem View.served_setFile {f : FileId} {file : File} (h : (v.file f).Served file) (g : FileId) :
    (v.file g).Served ((v.setFile f file).file g) := by
  rw [View.file_setFile]
  split
  next hg => exact hg.1 ▸ h
  · exact .refl _

theorem View.served_readWindow (v : View) (w : FileWindow) (g : FileId) :
    (v.file g).Served ((v.readWindow w).file g) := View.served_setFile (File.read_served ..).1 g

theorem View.WroteBack.served (h : v.WroteBack w c v') (g : FileId) : (v.file g).Served (v'.file g) := by
  cases h with
  | nothing => exact .refl _
  | @bytes n file hwrite =>
    have hserved := File.write_served w.offset (w.bytesOf c) (v.file w.file)
    simp only [hwrite] at hserved
    exact View.served_setFile hserved.1 g

theorem View.FailedToWrite.served (h : v.FailedToWrite w c v') (g : FileId) : (v.file g).Served (v'.file g) := by
  cases h with
  | @stopped e file hwrite =>
    have hserved := File.write_served w.offset (w.bytesOf c) (v.file w.file)
    simp only [hwrite] at hserved
    exact View.served_setFile hserved.1 g

theorem Upkeep.served (h : Upkeep v v') (g : FileId) : (v.file g).Served (v'.file g) := by
  cases h with
  | read w => exact v.served_readWindow w g
  | failToWrite _ _ _ _ _ _ hwrite => exact hwrite.served g
  | writeBack _ _ _ _ _ _ _ hwrite => exact hwrite.served g
  | _ => exact .refl _

theorem View.Fills.served {kind kind' : PageKind} (h : v.Fills kind c kind' v') (g : FileId) :
    (v.file g).Served (v'.file g) := by
  cases h with
  | source => exact v.served_readWindow _ g
  | first => exact v.served_readWindow _ g
  | again => exact v.served_readWindow _ g
  | _ => exact .refl _

theorem Does.served (h : Does d v v') (g : FileId) : (v.file g).Served (v'.file g) := by
  cases h with
  | load h => cases h with | load _ _ _ _ hfills => exact hfills.served g
  | use h => cases h; exact .refl _
  | describe h => cases h; exact .refl _
  | copy h => cases h <;> exact .refl _
  | release _ h =>
    cases h with
    | resident _ _ hwrite =>
      obtain ⟨rfl, _⟩ | ⟨f, e, content, _, _, _, _, hwrite⟩ := hwrite
      · exact .refl _
      · exact hwrite.served g
    | swapped => exact .refl _
    | bare => exact .refl _
  | lose _ h => cases h with | lose _ _ _ _ _ _ hwrite => exact hwrite.served g
  | _ => exact .refl _

theorem Trace.served (h : Trace v ds v') (g : FileId) : (v.file g).Served (v'.file g) := by
  induction h with
  | done => exact .refl _
  | upkeep hstep _ ih => exact (hstep.served g).trans ih
  | deed hdeed _ ih => exact (hdeed.served g).trans ih

/-! ### Bytes under a window -/

/-- What is put in place under one window is not under one that is apart from it. -/
theorem FileWindow.Apart.part_splice {f w : FileWindow} (h : f.Apart w) (hfile : f.file = w.file) {data : Bytes}
    (hend : w.offset + w.readBytes ≤ data.length) {content : PageContent} {bs : Bytes} (hbs : bs <+: f.bytesOf content) :
    w.part (File.splice data f.offset bs) = w.part data := by
  have hcome : ComeFrom (fun g _ => g = f) w.file data (File.splice data f.offset bs) := .splice rfl hfile hbs
  refine FileWindow.part_congr fun j hlow hhigh => ?_
  have hj : j < (File.splice data f.offset bs).length := Nat.lt_of_lt_of_le (by omega) hcome.length_le
  rw [List.getElem?_eq_getElem hj]
  obtain hold | ⟨g, _, rfl, _, hglow, hghigh, _⟩ | ⟨hpast, _⟩ := hcome.byte (List.getElem?_eq_getElem hj)
  · exact hold.symm
  · have hapart := h hfile j hglow hghigh hlow
    omega
  · omega

/-- If bytes are put in place under a window that is apart, what is under `w` stays, also if the write stops early. -/
theorem View.part_setFile_of_splice {f : FileWindow} (content : PageContent) {file : File}
    (hend : w.offset + w.readBytes ≤ (v.file w.file).data.length) (hapart : f.Apart w)
    (hdata : w.file = f.file →
      ∃ bs, bs <+: f.bytesOf content ∧ file.data = File.splice (v.file f.file).data f.offset bs) :
    w.part ((v.setFile f.file file).file w.file).data = w.part (v.file w.file).data := by
  rw [View.file_setFile]
  split
  next hfile =>
    obtain ⟨bs, hbs, hspliced⟩ := hdata hfile.1
    rw [hfile.1] at hend ⊢
    rw [hspliced]
    exact hapart.part_splice hfile.1.symm hend hbs
  · rfl

theorem View.WroteBack.part_eq {f : FileWindow} {content : PageContent} (h : v.WroteBack f content v')
    (hserves : (v.file w.file).Serves) (hend : w.offset + w.readBytes ≤ (v.file w.file).data.length)
    (hlimit : f.offset + f.readBytes < Word.limit) (hapart : f.Apart w) :
    w.part (v'.file w.file).data = w.part (v.file w.file).data := by
  cases h with
  | nothing => rfl
  | @bytes n file hwrite =>
    refine View.part_setFile_of_splice content hend hapart fun hfile => ?_
    rw [hfile] at hserves
    have hspliced := hserves.quiet.truthful.write (f.length_bytesOf content ▸ hlimit)
    simp only [hwrite] at hspliced
    exact ⟨_, List.prefix_rfl, hspliced.2⟩

theorem View.FailedToWrite.part_eq {f : FileWindow} {content : PageContent} (h : v.FailedToWrite f content v')
    (hserves : (v.file w.file).Serves) (hend : w.offset + w.readBytes ≤ (v.file w.file).data.length)
    (hlimit : f.offset + f.readBytes < Word.limit) (hapart : f.Apart w) :
    w.part (v'.file w.file).data = w.part (v.file w.file).data := by
  cases h with
  | @stopped e file hwrite =>
    refine View.part_setFile_of_splice content hend hapart fun hfile => ?_
    rw [hfile] at hserves
    have hspliced := hserves.quiet.truthful.write (f.length_bytesOf content ▸ hlimit)
    simp only [hwrite] at hspliced
    exact hspliced.2

/-- What is written back under a window of a file that serves every request is there. -/
theorem View.WroteBack.part_eq_bytesOf {content : PageContent} (h : v.WroteBack w content v')
    (hserves : (v.file w.file).Serves) (hlimit : w.offset + w.readBytes < Word.limit)
    (hend : w.offset + w.readBytes ≤ (v.file w.file).data.length) :
    w.part (v'.file w.file).data = w.bytesOf content := by
  have hlength := w.length_bytesOf content
  have hempty (hzero : w.readBytes = 0) (data : Bytes) : w.part data = w.bytesOf content := by
    rw [List.eq_nil_of_length_eq_zero (hlength.trans hzero), FileWindow.part, hzero, List.take_zero]
  cases h with
  | nothing hzero => exact hempty hzero _
  | @bytes n file hwrite =>
    by_cases hfile : (v.files w.file).isSome
    · rw [← hlength] at hend hlimit
      obtain ⟨f', _, hdata, hok⟩ := hserves.write hlimit hend
      rw [hok, EStateM.Result.ok.injEq] at hwrite
      rw [View.file_setFile, if_pos ⟨rfl, hfile⟩, ← hwrite.2, hdata]
      exact FileWindow.part_patch hlength (hlength ▸ hend)
    · refine hempty ?_ _
      rw [View.file, Option.not_isSome_iff_eq_none.1 hfile] at hend
      have hnil : w.offset + w.readBytes ≤ 0 := hend
      omega

theorem View.not_failedToWrite {content : PageContent} (hserves : (v.file w.file).Serves)
    (hlimit : w.offset + w.readBytes < Word.limit) (hend : w.offset + w.readBytes ≤ (v.file w.file).data.length) :
    ¬ v.FailedToWrite w content v' := by
  rw [← w.length_bytesOf content] at hend hlimit
  obtain ⟨f, _, _, hwrite⟩ := hserves.write hlimit hend
  rintro ⟨hfailed⟩
  rw [hwrite] at hfailed
  cases hfailed

/-- Whether two pages agree under the window is not changed by a store in both. -/
theorem FileWindow.bytesOf_lay {content : PageContent} (h : w.bytesOf content = w.bytesOf c) (st : Store) (p : PageId) :
    w.bytesOf (st.lay p content) = w.bytesOf (st.lay p c) := by
  refine FileWindow.ext_bytes (w.length_bytesOf _) (w.length_bytesOf _) fun j hj => ?_
  have hpage : j < pageSize := Nat.lt_of_lt_of_le hj w.readBytes_le
  have hbyte := congrArg (·[j]?) h
  simp only [FileWindow.getElem?_bytesOf _ _ hj, Content.byteAt, Vector.getElem?_eq_getElem hpage, Option.getD_some,
    Option.some.injEq, Store.getElem_lay _ _ _ hpage] at hbyte ⊢
  rw [hbyte]

namespace View.HoldsUnder

/-- A page goes on to hold what it does while it keeps its frame and its bytes stay in the file if they are there. -/
theorem congr (h : v.HoldsUnder p w c)
    (hfile : w.part (v.file w.file).data = w.bytesOf c → w.part (v'.file w.file).data = w.bytesOf c)
    (hpages : v'.pages p = v.pages p)
    (hentries : ∀ e, v.entries p = some e → ∃ e', v'.entries p = some e' ∧ e'.flags.dirty = e.flags.dirty)
    (hframes : ∀ page pa, v.pages p = some page → page.frame = some pa → v'.frames pa = v.frames pa) :
    v'.HoldsUnder p w c := by
  cases h with
  | away hpage hwindow hframe hpart => exact .away (hpages.trans hpage) hwindow hframe (hfile hpart)
  | resident hpage hkind hframe hentry hcontent hbytes hclean =>
    obtain ⟨e', hentry', hdirty⟩ := hentries _ hentry
    exact .resident (hpages.trans hpage) hkind hframe hentry' ((hframes _ _ hpage hframe).trans hcontent) hbytes
      fun he => hfile (hclean (hdirty ▸ he))

/-- Changes that concern neither the page, nor its frame, nor the file. -/
theorem of_same (h : v.HoldsUnder p w c) (hpages : v'.pages = v.pages) (hentries : v'.entries = v.entries)
    (hframes : v'.frames = v.frames) (hfiles : v'.files = v.files) : v'.HoldsUnder p w c :=
  h.congr (by rw [View.file, View.file, hfiles]; exact id) (by rw [hpages]) (fun e he => ⟨e, hentries ▸ he, rfl⟩)
    fun _ pa _ _ => by rw [hframes]

/-- A frame that is not that of the page gets other bytes or becomes free. -/
theorem setFrame (h : v.HoldsUnder p w c) {pa : PhysAddr}
    (hpa : ∀ page pa', v.pages p = some page → page.frame = some pa' → pa' ≠ pa) (content : Option PageContent) :
    (v.setFrame pa content).HoldsUnder p w c :=
  h.congr id rfl (fun e he => ⟨e, he, rfl⟩) fun page pa' hpage hframe =>
    Function.update_of_ne (hpa page pa' hpage hframe) ..

/-- Another page leaves its frame. -/
theorem vacate_of_ne (h : v.HoldsUnder p w c) {q : PageId} (hq : p ≠ q) (pa : PhysAddr) (page : Option PageEntry) :
    (v.vacate q pa page).HoldsUnder p w c :=
  h.congr id (by simp [View.vacate, hq]) (fun e he => ⟨e, by simpa [View.vacate, hq] using he, rfl⟩) fun _ _ _ _ => rfl

/-- Another page appears, changes or goes away. -/
theorem setPage_of_ne (h : v.HoldsUnder p w c) {q : PageId} (hq : p ≠ q) (page : Option PageEntry) :
    (v.setPage q page).HoldsUnder p w c :=
  h.congr id (Function.update_of_ne hq ..) (fun e he => ⟨e, he, rfl⟩) fun _ _ _ _ => rfl

/-- Another page comes to be in a frame. -/
theorem lodge_of_ne (h : v.HoldsUnder p w c) {q : PageId} (hq : p ≠ q) (pa : PhysAddr) (page : PageEntry)
    (e : PageTableEntry) : (v.lodge q pa page e).HoldsUnder p w c :=
  h.congr id (by simp [View.lodge, hq]) (fun e he => ⟨e, by simpa [View.lodge, hq] using he, rfl⟩) fun _ _ _ _ => rfl

/-- A page goes on to hold what it does when another one is written back, if its bytes stay in the file. -/
theorem of_wroteBack (h : v.HoldsUnder p w c) {f : FileWindow} {content : PageContent} (hwrite : v.WroteBack f content v')
    (hfile : w.part (v.file w.file).data = w.bytesOf c → w.part (v'.file w.file).data = w.bytesOf c) :
    v'.HoldsUnder p w c := by
  cases hwrite with
  | nothing => exact h
  | bytes => exact h.congr hfile rfl (fun e he => ⟨e, he, rfl⟩) fun _ _ _ _ => rfl

theorem of_failedToWrite (h : v.HoldsUnder p w c) {f : FileWindow} {content : PageContent}
    (hwrite : v.FailedToWrite f content v')
    (hfile : w.part (v.file w.file).data = w.bytesOf c → w.part (v'.file w.file).data = w.bytesOf c) :
    v'.HoldsUnder p w c := by
  cases hwrite
  exact h.congr hfile rfl (fun e he => ⟨e, he, rfl⟩) fun _ _ _ _ => rfl

/-- Another page leaves its frame, which is free then, and goes away. -/
theorem release_of_ne (h : v.HoldsUnder p w c) (hv : v.Sound) {q : PageId} (hq : p ≠ q) {page : PageEntry}
    {pa : PhysAddr} (hpage : v.pages q = some page) (hframe : page.frame = some pa) :
    (((v.vacate q pa none).setFrame pa none).letGo).HoldsUnder p w c :=
  ((h.vacate_of_ne hq pa none).setFrame (fun _ _ hpage' hframe' => hv.ne_vacated hpage hframe hpage' hframe')
    none).of_same rfl rfl rfl rfl

theorem window?_eq (h : v.HoldsUnder p w c) {page : PageEntry} (hpage : v.pages p = some page) :
    page.kind.window? = some w := by
  cases h with
  | away hpage' hwindow => exact Option.some.inj (hpage.symm.trans hpage') ▸ hwindow
  | resident hpage' hkind =>
    rw [Option.some.inj (hpage.symm.trans hpage'), hkind]
    rfl

/-- A page in a frame has its bytes there. -/
theorem bytesOf_eq (h : v.HoldsUnder p w c) {page : PageEntry} {pa : PhysAddr} {content : PageContent}
    (hpage : v.pages p = some page) (hframe : page.frame = some pa) (hcontent : v.frames pa = some content) :
    w.bytesOf content = w.bytesOf c := by
  cases h with
  | away hpage' _ hframe' =>
    rw [Option.some.inj (hpage.symm.trans hpage'), hframe'] at hframe
    cases hframe
  | resident hpage' _ hframe' _ hcontent' hbytes =>
    rw [Option.some.inj (hpage.symm.trans hpage'), hframe', Option.some.injEq] at hframe
    subst hframe
    exact Option.some.inj (hcontent.symm.trans hcontent') ▸ hbytes

/-- A page in a frame was loaded from the window. -/
theorem kind_of_frame (h : v.HoldsUnder p w c) {page : PageEntry} {pa : PhysAddr} (hpage : v.pages p = some page)
    (hframe : page.frame = some pa) : page.kind = .file w := by
  cases h with
  | away hpage' _ hframe' =>
    rw [Option.some.inj (hpage.symm.trans hpage'), hframe'] at hframe
    cases hframe
  | resident hpage' hkind => exact Option.some.inj (hpage.symm.trans hpage') ▸ hkind

/-- Where a page was not written since it was loaded, the file has its bytes. -/
theorem part_of_clean (h : v.HoldsUnder p w c) {e : PageTableEntry} (hentry : v.entries p = some e)
    (hdirty : e.flags.dirty = false) : w.part (v.file w.file).data = w.bytesOf c := by
  cases h with
  | away _ _ _ hpart => exact hpart
  | resident _ _ _ hentry' _ _ hclean => exact hclean (Option.some.inj (hentry.symm.trans hentry') ▸ hdirty)

theorem part_of_bare (h : v.HoldsUnder p w c) {page : PageEntry} (hpage : v.pages p = some page)
    (hframe : page.frame = none) : w.part (v.file w.file).data = w.bytesOf c := by
  cases h with
  | away _ _ _ hpart => exact hpart
  | resident hpage' _ hframe' =>
    rw [Option.some.inj (hpage.symm.trans hpage'), hframe'] at hframe
    cases hframe

theorem page (h : v.HoldsUnder p w c) : ∃ page, v.pages p = some page := by
  cases h with
  | away hpage => exact ⟨_, hpage⟩
  | resident hpage => exact ⟨_, hpage⟩

/-- If no other page was written, those that were have what the page has. -/
theorem accords (h : v.HoldsUnder p w c) (honly : v.OnlyWriter p w) : v.Accords w c := by
  intro q f hwritten
  by_cases hq : q = p
  · exact .inr (hq ▸ h)
  · exact .inl (honly q f hq hwritten)

end View.HoldsUnder

namespace View.Accords

variable {q : PageId} {page : PageEntry} {f : FileWindow} {pa : PhysAddr} {e : PageTableEntry} {content : PageContent}

/-- The bytes under the window stay in the file when a page that was written is written back. -/
theorem part_of_wroteBack (h : v.Accords w c) (hv : v.Sound) (hserves : (v.file w.file).Serves)
    (hend : w.offset + w.readBytes ≤ (v.file w.file).data.length) (hpage : v.pages q = some page)
    (hkind : page.kind = .file f) (hframe : page.frame = some pa) (hentry : v.entries q = some e)
    (hdirty : e.flags.dirty = true) (hcontent : v.frames pa = some content) (hwrite : v.WroteBack f content v')
    (hpart : w.part (v.file w.file).data = w.bytesOf c) : w.part (v'.file w.file).data = w.bytesOf c := by
  have hlimit := hv.window_lt_limit hpage hkind
  obtain hapart | hold := h q f ⟨page, e, hpage, hkind, hentry, hdirty⟩
  · exact (hwrite.part_eq hserves hend hlimit hapart).trans hpart
  · obtain rfl : f = w := PageKind.file.inj (hkind.symm.trans (hold.kind_of_frame hpage hframe))
    exact (hwrite.part_eq_bytesOf hserves hlimit hend).trans (hold.bytesOf_eq hpage hframe hcontent)

theorem part_of_failedToWrite (h : v.Accords w c) (hv : v.Sound) (hserves : (v.file w.file).Serves)
    (hend : w.offset + w.readBytes ≤ (v.file w.file).data.length) (hpage : v.pages q = some page)
    (hkind : page.kind = .file f) (hframe : page.frame = some pa) (hentry : v.entries q = some e)
    (hdirty : e.flags.dirty = true) (hwrite : v.FailedToWrite f content v')
    (hpart : w.part (v.file w.file).data = w.bytesOf c) : w.part (v'.file w.file).data = w.bytesOf c := by
  have hlimit := hv.window_lt_limit hpage hkind
  obtain hapart | hold := h q f ⟨page, e, hpage, hkind, hentry, hdirty⟩
  · exact (hwrite.part_eq hserves hend hlimit hapart).trans hpart
  · obtain rfl : f = w := PageKind.file.inj (hkind.symm.trans (hold.kind_of_frame hpage hframe))
    exact absurd hwrite (View.not_failedToWrite hserves hlimit hend)

end View.Accords

end DemandPaging
