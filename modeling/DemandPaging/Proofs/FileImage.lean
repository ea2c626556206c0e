import DemandPaging.Proofs.History
import DemandPaging.Proofs.Shown

/-!
What stores through a mapping make of the file. Pages may come and go in any order: the file and the pages together have
the bytes that were stored last.
-/

namespace DemandPaging

namespace Mapping

variable {m : Mapping} {data : Bytes} {sts sts' : List Store} {i j k : Nat}

/-- What the byte `b` at `k` of the file becomes by stores: the last one that was stored there through the mapping, if
there is one. -/
def byteAfter (m : Mapping) (sts : List Store) (k : Nat) (b : UInt8) : UInt8 :=
  if m.offset ≤ k ∧ k < m.offset + m.covered then
    (lastByte? sts (m.place ((k - m.offset) / pageSize)) ((k - m.offset) % pageSize)).getD b
  else b

/-- What a file with the bytes `data` becomes by stores. -/
def image (m : Mapping) (data : Bytes) (sts : List Store) : Bytes := data.mapIdx (m.byteAfter sts)

@[simp] theorem length_image (m : Mapping) (data : Bytes) (sts : List Store) :
    (m.image data sts).length = data.length :=
  List.length_mapIdx

theorem getElem?_image (m : Mapping) (data : Bytes) (sts : List Store) (k : Nat) :
    (m.image data sts)[k]? = data[k]?.map (m.byteAfter sts k) := List.getElem?_mapIdx

/-- A byte that no store reaches. -/
theorem getElem?_image_of_eq (h : ∀ b, m.byteAfter sts k b = b) : (m.image data sts)[k]? = data[k]? := by
  rw [getElem?_image, funext h, Option.map_id']

theorem byteAfter_append (m : Mapping) (sts sts' : List Store) (k : Nat) (b : UInt8) :
    m.byteAfter (sts ++ sts') k b = m.byteAfter sts' k (m.byteAfter sts k b) := by
  unfold byteAfter
  split
  · rw [lastByte?_append]
    cases lastByte? sts' (m.place ((k - m.offset) / pageSize)) ((k - m.offset) % pageSize) <;> rfl
  · rfl

theorem image_append (m : Mapping) (data : Bytes) (sts sts' : List Store) :
    m.image data (sts ++ sts') = m.image (m.image data sts) sts' := by
  refine List.ext_getElem? fun k => ?_
  rw [getElem?_image, getElem?_image, getElem?_image, Option.map_map]
  exact congrArg (Option.map · _) (funext fun b => m.byteAfter_append sts sts' k b)

@[simp] theorem image_nil (m : Mapping) (data : Bytes) : m.image data [] = data := by
  exact List.ext_getElem? fun k => getElem?_image_of_eq fun b => by simp [byteAfter]

/-- A byte under one of the windows. -/
theorem byteAfter_window (m : Mapping) (sts : List Store) (hi : i < m.count) (hj : j < (m.window i).readBytes)
    (b : UInt8) : m.byteAfter sts ((m.window i).offset + j) b = (lastByte? sts (m.place i) j).getD b := by
  have hend := window_le hi
  have hle := (m.window i).readBytes_le
  have hdistance : (m.window i).offset + j - m.offset = j + i * pageSize := by
    simp only [window, FileWindow.new]
    omega
  have hlow : m.offset ≤ (m.window i).offset := Nat.le_add_right ..
  have hpage : j < pageSize := Nat.lt_of_lt_of_le hj hle
  rw [byteAfter, if_pos (by omega), hdistance, Nat.add_mul_div_right _ _ (by decide), Nat.div_eq_of_lt hpage,
    Nat.zero_add, Nat.add_mul_mod_self_right, Nat.mod_eq_of_lt hpage]

/-- A store that is to another page does not reach the window. -/
theorem part_image_of_ne {p : PageId} (hi : i < m.count) (hp : p ≠ m.place i) (start : Nat) (bytes : Bytes) :
    (m.window i).part (m.image data [⟨p, start, bytes⟩]) = (m.window i).part data := by
  refine FileWindow.part_congr fun k hlow hhigh => ?_
  obtain ⟨j, rfl⟩ := Nat.exists_eq_add_of_le hlow
  refine getElem?_image_of_eq fun b => ?_
  rw [byteAfter_window _ _ hi (by omega)]
  simp [lastByte?, Store.byte?, hp]

/-- A store to the page of the window reaches it as it reaches the page. -/
theorem part_image (hm : m.Fits data.length) (hi : i < m.count) {content : PageContent}
    (hbytes : (m.window i).bytesOf content = (m.window i).part data) (start : Nat) (bytes : Bytes) :
    (m.window i).bytesOf (Content.overlay content start bytes) =
      (m.window i).part (m.image data [⟨m.place i, start, bytes⟩]) := by
  have hend : (m.window i).offset + (m.window i).readBytes ≤ data.length := (window_le hi).trans hm.covered_le
  refine FileWindow.ext_bytes (FileWindow.length_bytesOf _ _)
    (FileWindow.length_part (by rwa [length_image])) fun j hj => ?_
  have hpage : j < pageSize := Nat.lt_of_lt_of_le hj (m.window i).readBytes_le
  have hold : data[(m.window i).offset + j]? = some content[j] := by
    rw [← FileWindow.getElem?_part _ _ hj, ← hbytes, FileWindow.getElem?_bytesOf _ _ hj, Content.byteAt,
      Vector.getElem?_eq_getElem hpage, Option.getD_some]
  have hlay := Store.getElem_lay ⟨m.place i, start, bytes⟩ (m.place i) content hpage
  rw [FileWindow.getElem?_bytesOf _ _ hj, FileWindow.getElem?_part _ _ hj, getElem?_image, hold, Option.map_some,
    byteAfter_window _ _ hi hj, Content.byteAt, Vector.getElem?_eq_getElem hpage, Option.getD_some]
  simp only [Store.lay, ↓reduceIte] at hlay
  rw [hlay]
  simp [lastByte?]

/-- A store of no bytes changes nothing. -/
theorem image_of_bytes_eq_nil (m : Mapping) (data : Bytes) (p : PageId) (start : Nat) :
    m.image data [⟨p, start, []⟩] = data := by
  exact List.ext_getElem? fun k => getElem?_image_of_eq fun b => by simp [byteAfter, lastByte?, Store.byte?]

end Mapping

open Mapping

variable {m : Mapping} {data : Bytes} {v w : View}

/-- Upkeep does not change what a mapping shows: what was written is written back before the page goes. -/
theorem Upkeep.shows (h : Upkeep v w) (hv : v.Sound) (hm : m.Fits data.length) (hs : m.Shows data v) :
    m.Shows data w := by
  cases h with
  | @mark p e e' hentry _ hdirty =>
    refine hs.congr rfl rfl fun i hi => (hs.page i hi).congr rfl rfl (fun e'' he => ?_) fun _ _ _ _ => rfl
    by_cases hp : m.place i = p
    · subst hp
      rw [hentry, Option.some.injEq] at he
      exact ⟨e', Function.update_self .., he ▸ hdirty⟩
    · exact ⟨e'', (Function.update_of_ne hp ..).trans he, rfl⟩
  | read f => exact hs.readWindow f
  | failToWrite hpage hkind _ _ _ _ hwrite => exact (hs.failedToWrite hm hv hpage hkind hwrite).1
  | take _ hfree =>
    exact (hs.setFrame (fun _ _ _ hpage hframe => hv.ne_free hpage hframe hfree) _).of_same rfl rfl rfl rfl
  | scribble hheld content => exact hs.setFrame (fun _ _ _ hpage hframe => hv.ne_held hpage hframe hheld) _
  | giveUp hheld =>
    exact (hs.setFrame (fun _ _ _ hpage hframe => hv.ne_held hpage hframe hheld) _).of_same rfl rfl rfl rfl
  | swapOut _ hpage hkind =>
    refine (hs.vacate hpage (fun i hi hp => ?_) fun q hq => ?_).of_same rfl rfl rfl rfl
    · have hwindow := (hs.page i hi).window?_eq (hp ▸ hpage)
      rw [hkind] at hwindow
      cases hwindow
    · obtain rfl := Option.some.inj hq
      exact ⟨rfl, by rw [hkind]; rfl⟩
  | dropClean _ hpage hkind hframe hentry hdirty =>
    refine hs.vacate hpage (fun i hi hp => ?_) fun q hq => Option.some.inj hq ▸ ⟨rfl, rfl⟩
    subst hp
    exact (hs.page i hi).part_of_clean hentry hdirty
  | writeBack _ hpage hkind hframe _ _ hcontent hwrite =>
    obtain ⟨hshows, hpart⟩ := hs.wroteBack hm hv hpage hkind hframe hcontent hwrite
    exact hshows.vacate (hwrite.same.1 ▸ hpage) hpart fun q hq => Option.some.inj hq ▸ ⟨rfl, rfl⟩

theorem Upkept.shows (h : Upkept v w) (hv : v.Sound) (hm : m.Fits data.length) (hs : m.Shows data v) :
    m.Shows data w := by
  induction h with
  | refl => exact hs
  | tail hpath hstep ih => exact hstep.shows (Upkept.sound hpath hv) hm ih

/-- A page stays over the window that it is over when it is loaded, and gets the bytes under it. -/
theorem View.Fills.window?_eq {kind kind' : PageKind} {content : PageContent} (h : v.Fills kind content kind' w) :
    kind'.window? = kind.window? ∧
      ∀ f, kind.window? = some f → kind' = .file f ∧ content = f.contentOver (v.file f.file).data := by
  cases h with
  | first => exact ⟨rfl, fun f hf => Option.some.inj hf ▸ ⟨rfl, rfl⟩⟩
  | again => exact ⟨rfl, fun f hf => Option.some.inj hf ▸ ⟨rfl, rfl⟩⟩
  | _ => exact ⟨rfl, fun f hf => by cases hf⟩

theorem View.Fills.shows {kind kind' : PageKind} {content : PageContent} (h : v.Fills kind content kind' w)
    (hs : m.Shows data v) : m.Shows data w := by
  cases h with
  | zero => exact hs
  | source => exact hs.readWindow _
  | first => exact hs.readWindow _
  | again => exact hs.readWindow _
  | swapIn => exact hs.of_same rfl rfl rfl rfl

/-- A page is loaded with what the file has, which is what it was to show. -/
theorem View.Loads.shows {p : PageId} {pa : PhysAddr} {fresh : Option PageContent} (h : v.Loads p pa fresh w)
    (hv : v.Sound) (hm : m.Fits data.length) (hs : m.Shows data v) : m.Shows data w := by
  cases h with
  | @load page content kind v' hheld hpage hframe hmap hfills =>
    have hs' := hfills.shows hs
    obtain ⟨hwindow, hfile⟩ := hfills.window?_eq
    have hpages : v'.pages = v.pages := by rw [hfills.same]
    have hfree (q : PageId) (page' : PageEntry) (pa' : PhysAddr) (hpage' : v'.pages q = some page')
        (hframe' : page'.frame = some pa') : pa' ≠ pa := hv.ne_held (hpages ▸ hpage') hframe' hheld
    refine (hs'.setFrame hfree (some content)).lodge (Function.update_self ..) (fun i hi hp => ?_) fun f hf hfile' => ?_
    · subst hp
      have hbare {u : View} (hu : u.pages = v.pages) (q : PageEntry) (hq : u.pages (m.place i) = some q) :
          q.frame = none := by
        rw [hu, hpage, Option.some.injEq] at hq
        exact hq ▸ hframe
      obtain ⟨hkind, rfl⟩ := hfile _ ((hs.page i hi).window?_eq hpage)
      have hend : (m.window i).offset + (m.window i).readBytes ≤ (v.file m.file).data.length :=
        hs.length.symm ▸ (window_le hi).trans hm.covered_le
      refine ⟨hkind, rfl, ?_, (hs'.page i hi).part_of_bare (hbare hpages)⟩
      rw [show (m.window i).file = m.file from rfl, FileWindow.bytesOf_contentOver hend]
      exact (hs.page i hi).part_of_bare (hbare rfl)
    · obtain ⟨i, hi, hp, _⟩ := hs.exists_place hpage (hwindow ▸ hf) hfile'
      exact ⟨i, hi, hp⟩

/-- A page that is used shows what was stored in it. -/
theorem View.Uses.shows {p : PageId} {write : Bool} {start : Nat} {bytes : Bytes} (h : v.Uses p write start bytes w)
    (hv : v.Sound) (hm : m.Fits data.length) (hs : m.Shows data v)
    (hdeclared : m.IsPlace p → bytes = [] ∨ write = true) :
    m.Shows (m.image data [⟨p, start, bytes⟩]) w := by
  cases h with
  | @use page pa e content hpage hframe hentry hcontent =>
    refine ⟨hs.file, hs.serves, hs.length.trans (length_image ..).symm, fun k hk => ?_, fun i hi => ?_, hs.alone⟩
    · rw [getElem?_image_of_eq fun b => by rw [byteAfter, if_neg (by omega)]]
      exact hs.outside k hk
    · by_cases hp : p = m.place i
      · subst hp
        cases hs.page i hi with
        | away haway =>
          rw [(haway page hpage).1] at hframe
          cases hframe
        | resident hpage' hkind hframe' hentry' hcontent' hbytes hclean =>
          obtain rfl := Option.some.inj (hpage.symm.trans hpage')
          obtain rfl := Option.some.inj (hframe.symm.trans hframe')
          obtain rfl := Option.some.inj (hentry.symm.trans hentry')
          obtain rfl := Option.some.inj (hcontent.symm.trans hcontent')
          refine .resident hpage hkind hframe (Function.update_self ..) (Function.update_self ..)
            (part_image hm hi hbytes start bytes) fun hdirty => ?_
          simp only [Bool.or_eq_false_iff] at hdirty
          obtain rfl | hwrite := hdeclared ⟨i, hi, rfl⟩
          · rw [image_of_bytes_eq_nil]
            exact hclean hdirty.1
          · rw [hdirty.2] at hwrite
            cases hwrite
      · refine ShowsPage.of_part ?_ (part_image_of_ne hi hp start bytes)
        refine (hs.page i hi).congr rfl rfl (fun e' he => ⟨e', ?_, rfl⟩) fun page' pa' hpage' hframe' => ?_
        · exact (Function.update_of_ne (Ne.symm hp) ..).trans he
        · refine Function.update_of_ne (fun hpa => hp ?_) ..
          exact hv.eq_of_frame hpage hframe hpage' (hpa ▸ hframe')

/-- No page is left in a frame that a page went out of. -/
theorem View.Sound.ne_vacated (h : v.Sound) {p q : PageId} {page page' : PageEntry} {pa pa' : PhysAddr}
    (hpage : v.pages p = some page) (hframe : page.frame = some pa)
    (hpage' : (v.vacate p pa none).pages q = some page') (hframe' : page'.frame = some pa') : pa' ≠ pa := by
  rintro rfl
  have hq : q ≠ p := by
    rintro rfl
    simp [View.vacate] at hpage'
  exact hq (h.eq_of_frame (by simpa [View.vacate, hq] using hpage') hframe' hpage hframe)

/-- A page that goes away leaves its bytes in the file, if it is one of the mapping's. -/
theorem View.Releases.shows {p : PageId} (h : v.Releases p w) (hv : v.Sound)
    (hm : m.Fits data.length) (hs : m.Shows data v) : m.Shows data w := by
  cases h with
  | @resident v' page pa hpage hframe hwrite =>
    have hvacate : m.Shows data (v'.vacate p pa none) ∧ v'.pages = v.pages ∧ v'.Sound := by
      obtain ⟨rfl, hclean⟩ | ⟨f, _, content, hkind, _, _, hcontent, hwrite⟩ := hwrite
      · refine ⟨hs.vacate hpage (fun i hi hp => ?_) fun q hq => (by cases hq), rfl, hv⟩
        subst hp
        obtain ⟨e, hentry, _⟩ := hv.entry_of_frame hpage hframe
        refine (hs.page i hi).part_of_clean hentry (hclean (m.window i) e ?_ hentry)
        cases hs.page i hi with
        | away haway =>
          rw [(haway page hpage).1] at hframe
          cases hframe
        | resident hpage' hkind => exact Option.some.inj (hpage.symm.trans hpage') ▸ hkind
      · obtain ⟨hshows, hpart⟩ := hs.wroteBack hm hv hpage hkind hframe hcontent hwrite
        have hpages := hwrite.same.1
        exact ⟨hshows.vacate (hpages ▸ hpage) hpart fun q hq => (by cases hq), hpages, hwrite.sound hv⟩
    obtain ⟨hshows, hpages, hv'⟩ := hvacate
    exact (hshows.setFrame (fun _ _ _ hq hq' => hv'.ne_vacated (hpages ▸ hpage) hframe hq hq') none).of_same
      rfl rfl rfl rfl
  | @swapped page slot hpage hframe hkind =>
    refine (hs.setPage (fun i hi hp => ⟨fun _ hq => (by cases hq), fun q hq => ?_⟩) fun q _ hq => by cases hq).of_same
      rfl rfl rfl rfl
    exact Option.some.inj (hpage.symm.trans hq) ▸ hframe
  | @bare page hpage hframe hkind =>
    refine hs.setPage (fun i hi hp => ⟨fun _ hq => (by cases hq), fun q hq => ?_⟩) fun q _ hq => by cases hq
    exact Option.some.inj (hpage.symm.trans hq) ▸ hframe

/-- A page that is lost is not one of the mapping's. -/
theorem View.Loses.shows {p : PageId} (h : v.Loses p w) (hv : v.Sound) (hm : m.Fits data.length)
    (hs : m.Shows data v) : m.Shows data w := by
  cases h with
  | @lose v' page f pa e content hpage hframe hkind _ _ _ hwrite =>
    obtain ⟨hshows, hplace⟩ := hs.failedToWrite hm hv hpage hkind hwrite
    have hpages := hwrite.same.1
    have hvacate : m.Shows data (v'.vacate p pa none) :=
      hshows.vacate (hpages ▸ hpage) (fun i hi hp => absurd ⟨i, hi, hp⟩ hplace) fun q hq => by cases hq
    exact (hvacate.setFrame (fun _ _ _ hq hq' => (hwrite.sound hv).ne_vacated (hpages ▸ hpage) hframe hq hq')
      none).of_same rfl rfl rfl rfl

/-- The page is not one of the mapping's, and not over its file. -/
def Mapping.IsForeign (m : Mapping) (p : PageId) (page : PageEntry) : Prop :=
  ¬ m.IsPlace p ∧ ∀ f, page.kind.window? = some f → f.file ≠ m.file

theorem Mapping.Shows.setForeign (hs : m.Shows data v) {p : PageId} {page : PageEntry} (hforeign : m.IsForeign p page) :
    m.Shows data (v.setPage p (some page)) := by
  refine hs.setPage (fun i hi hp => absurd ⟨i, hi, hp⟩ hforeign.1) fun q f hq hf hfile => ?_
  obtain rfl := Option.some.inj hq
  exact absurd hfile (hforeign.2 f hf)

/-- A page that is copied elsewhere and is not over the file does not matter. -/
theorem View.Copies.shows {p src : PageId} {page : PageEntry} (h : v.Copies p src page w) (hv : v.Sound)
    (hs : m.Shows data v) (hforeign : m.IsForeign p page) : m.Shows data w := by
  have hpage {i : Nat} (hi : i < m.count) (hp : p = m.place i) : False := hforeign.1 ⟨i, hi, hp⟩
  cases h with
  | resident hheld =>
    exact (hs.setFrame (fun _ _ _ hq hq' => hv.ne_held hq hq' hheld) _).lodge (Function.update_self ..)
      (fun i hi hp => (hpage hi hp).elim) fun f hf hfile => absurd hfile (hforeign.2 f hf)
  | swapped => exact (hs.setForeign hforeign).of_same rfl rfl rfl rfl
  | bare => exact hs.setForeign hforeign

/-- The deed makes no page of the file appear but the mapping's own, and it declares what it stores in them. -/
def Mapping.Tolerates (m : Mapping) : Deed → Prop
  | .describe p page => (∃ i < m.count, .describe p page = m.describe i) ∨ m.IsForeign p page
  | .copy p _ page => m.IsForeign p page
  | .use p write _ bytes => m.IsPlace p → bytes = [] ∨ write = true
  | _ => True

/-- What a mapping shows after a deed is what it showed before, with what was stored. -/
theorem Does.shows {d : Deed} (h : Does d v w) (hv : v.Sound) (hm : m.Fits data.length) (hs : m.Shows data v)
    (hd : m.Tolerates d) : m.Shows (m.image data d.store?.toList) w := by
  have hplain (hshows : m.Shows data w) : m.Shows (m.image data []) w := by rwa [image_nil]
  cases h with
  | @use p write start bytes _ _ h =>
    have hshows := h.shows hv hm hs hd
    by_cases hbytes : bytes = []
    · subst hbytes
      rw [image_of_bytes_eq_nil] at hshows
      exact hplain hshows
    · simpa [Deed.store?, hbytes] using hshows
  | load h => exact hplain (h.shows hv hm hs)
  | @describe p page _ _ h =>
    cases h with
    | describe _ hfree =>
      obtain ⟨i, hi, hdescribe⟩ | hforeign := hd
      · obtain ⟨rfl, rfl, rfl⟩ : p = m.place i ∧ _ = m.writable ∧ _ = Pending.file (m.window i) := by
          simpa [Mapping.describe, PageEntry.pending] using hdescribe
        refine hplain (hs.setPage (fun j hj hp => ⟨fun q hq => ?_, fun page hpage => ?_⟩) fun q f hq hf hfile =>
          ⟨i, hi, rfl⟩)
        · obtain rfl := Option.some.inj hq
          obtain rfl := place_inj.1 hp
          exact ⟨rfl, rfl⟩
        · rw [hfree] at hpage
          cases hpage
      · exact hplain (hs.setForeign hforeign)
  | copy h => exact hplain (h.shows hv hs hd)
  | release _ h => exact hplain (h.shows hv hm hs)
  | lose _ h => exact hplain (h.shows hv hm hs)
  | takeBack _ hlent =>
    have hshows := hs.setFrame (fun _ _ _ hpage hframe => hv.ne_lent hpage hframe hlent) none
    exact hplain (hshows.of_same rfl rfl rfl rfl)
  | _ => exact hplain (hs.of_same rfl rfl rfl rfl)

/-- What a mapping shows after any deeds that it tolerates is what was stored last. -/
theorem Trace.shows {ds : List Deed} (h : Trace v ds w) (hv : v.Sound) (hm : m.Fits data.length) (hs : m.Shows data v)
    (hds : ∀ d ∈ ds, m.Tolerates d) : m.Shows (m.image data (storesOf ds)) w := by
  induction h generalizing data with
  | done => simpa [storesOf] using hs
  | upkeep hstep _ ih => exact ih (hstep.sound hv) hm (hstep.shows hv hm hs) hds
  | @deed v w x d ds hdeed _ ih =>
    obtain ⟨hd, hrest⟩ := List.forall_mem_cons.1 hds
    have hshows := ih (hdeed.sound hv) (by rwa [length_image]) (hdeed.shows hv hm hs hd) hrest
    rwa [← image_append, ← storesOf_cons] at hshows

end DemandPaging
