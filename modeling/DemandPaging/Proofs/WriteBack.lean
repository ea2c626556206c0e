import DemandPaging.Proofs.MappedFile

/-!
What changes files. A byte of a file changes only if a page that was written makes way or goes away, and then it is a
byte of that page under its window.
-/

namespace DemandPaging

/-- The step from `v` to `v'`, which does the deeds, gives the dirty page at `p` back to its file. -/
inductive Surrenders (p : PageId) (w : FileWindow) (content : PageContent) (v v' : View) : List Deed → Prop
  /-- The page is evicted, or is tried as a victim in vain. -/
  | victim (hdirty : v.IsDirty p w content) (hstep : Upkeep v v')
    (hends : (∃ page, v'.pages p = some page ∧ page.frame = none) ∨ v.FailedToWrite w content v') :
    Surrenders p w content v v' []
  | removed (hdirty : v.IsDirty p w content) (hstep : Does (.remove p) v v') : Surrenders p w content v v' [.remove p]

/-- A page is given back on the way from `v` to `x` by the deeds `ds`: it was dirty and held `content` then. -/
def GivesBack (v : View) (ds : List Deed) (x : View) (w : FileWindow) (content : PageContent) : Prop :=
  ∃ p es gs fs u u', ds = es ++ (gs ++ fs) ∧ Trace v es u ∧ Surrenders p w content u u' gs ∧ Trace u' fs x

/-- The bytes `data'` of the file `f` are those of `data`, or bytes of pages that are given back, at their places under
the windows. Zeros fill the gap between the end of the file and the start of a window. -/
structure ComeFrom (gives : FileWindow → PageContent → Prop) (f : FileId) (data data' : Bytes) : Prop where
  length_le : data.length ≤ data'.length
  byte : ∀ {j : Nat} {b : UInt8}, data'[j]? = some b →
    data[j]? = some b ∨
    (∃ w content, gives w content ∧ w.file = f ∧ w.offset ≤ j ∧ j < w.offset + w.readBytes ∧
      b = Content.byteAt content (j - w.offset)) ∨
    data.length ≤ j ∧ b = 0 ∧ ∃ w content, gives w content ∧ w.file = f ∧ j < w.offset ∧ 0 < w.readBytes

namespace ComeFrom

variable {gives gives' : FileWindow → PageContent → Prop} {f : FileId} {data data' data'' : Bytes}

theorem refl (gives : FileWindow → PageContent → Prop) (f : FileId) (data : Bytes) : ComeFrom gives f data data :=
  ⟨Nat.le_refl _, .inl⟩

theorem mono (h : ComeFrom gives f data data') (hgives : ∀ w content, gives w content → gives' w content) :
    ComeFrom gives' f data data' := by
  refine ⟨h.length_le, fun hb => (h.byte hb).imp_right fun hb => hb.imp ?_ ?_⟩
  · rintro ⟨w, content, hgive, hrest⟩
    exact ⟨w, content, hgives _ _ hgive, hrest⟩
  · rintro ⟨hend, hzero, w, content, hgive, hrest⟩
    exact ⟨hend, hzero, w, content, hgives _ _ hgive, hrest⟩

theorem trans (h : ComeFrom gives f data data') (h' : ComeFrom gives f data' data'') :
    ComeFrom gives f data data'' := by
  refine ⟨Nat.le_trans h.length_le h'.length_le, fun {j b} hb => ?_⟩
  obtain hold | hgiven | ⟨hend, hzero, hgap⟩ := h'.byte hb
  · exact h.byte hold
  · exact .inr (.inl hgiven)
  · exact .inr (.inr ⟨Nat.le_trans h.length_le hend, hzero, hgap⟩)

/-- A part of what a page holds is put in place under its window. -/
theorem splice {w : FileWindow} {content : PageContent} (hgives : gives w content) (hfile : w.file = f) {part : Bytes}
    (hpart : part <+: w.bytesOf content) : ComeFrom gives f data (File.splice data w.offset part) := by
  by_cases hnil : part = []
  · rw [hnil, File.splice_nil]
    exact refl gives f data
  have hlength : part.length ≤ w.readBytes := w.length_bytesOf content ▸ hpart.length_le
  have hpos : 0 < part.length := List.length_pos_iff.2 hnil
  refine ⟨?_, fun {j b} hb => ?_⟩
  · rw [File.length_splice hnil]
    exact Nat.le_max_left ..
  · rw [File.getElem?_splice hnil] at hb
    split at hb
    next hin =>
      have hread : j - w.offset < w.readBytes := by omega
      obtain ⟨hj, hb⟩ := List.getElem?_eq_some_iff.1 hb
      have hbyte := List.prefix_iff_getElem?.1 hpart _ hj
      rw [w.getElem?_bytesOf content hread, hb, Option.some.injEq] at hbyte
      exact .inr (.inl ⟨w, content, hgives, hfile, hin.1, by omega, hbyte.symm⟩)
    · split at hb
      · exact .inl hb
      · split at hb
        next hend hgap =>
          exact .inr (.inr ⟨Nat.not_lt.1 hend, (Option.some.inj hb).symm, w, content, hgives, hfile, hgap, by omega⟩)
        · cases hb

end ComeFrom

namespace View

/-- Every file conforms to its interface, though it may refuse requests. -/
def Truthful (v : View) : Prop := ∀ f, (v.file f).faults.Truthful

/-- The files of `v'` conform to their interface, and their bytes come from those of `v` and from pages given back. -/
def ChangesBy (gives : FileWindow → PageContent → Prop) (v v' : View) : Prop :=
  v'.Truthful ∧ ∀ f, ComeFrom gives f (v.file f).data (v'.file f).data

variable {v v' : View} {gives : FileWindow → PageContent → Prop} {w : FileWindow} {content : PageContent}

/-- Where files are as before, nothing was given back. -/
theorem Truthful.changesBy_of_eq (h : v.Truthful) (hfiles : v'.files = v.files) : v.ChangesBy gives v' := by
  have hfile (f : FileId) : v'.file f = v.file f := by rw [View.file, View.file, hfiles]
  refine ⟨fun f => ?_, fun f => ?_⟩
  · rw [hfile]
    exact h f
  · rw [hfile]
    exact .refl gives f _

theorem Truthful.setFile (h : v.Truthful) {f : FileId} {file : File} (htruthful : file.faults.Truthful)
    (hdata : ComeFrom gives f (v.file f).data file.data) : v.ChangesBy gives (v.setFile f file) := by
  refine ⟨fun g => ?_, fun g => ?_⟩
  · rw [View.file_setFile]
    split
    · exact htruthful
    · exact h g
  · rw [View.file_setFile]
    split
    next hg => exact hg.1 ▸ hdata
    · exact .refl gives g _

theorem Truthful.readWindow (h : v.Truthful) (w : FileWindow) : v.ChangesBy gives (v.readWindow w) := by
  refine h.setFile ((h w.file).read w.offset w.readBytes) ?_
  rw [(File.read_spec w.offset w.readBytes (v.file w.file)).1]
  exact .refl gives w.file _

theorem WroteBack.changesBy (hwrite : v.WroteBack w content v') (h : v.Truthful)
    (hlimit : w.offset + w.readBytes < Word.limit) (hgives : gives w content) : v.ChangesBy gives v' := by
  cases hwrite with
  | nothing => exact h.changesBy_of_eq rfl
  | @bytes n file hresult =>
    have hspliced := (h w.file).write (w.length_bytesOf content ▸ hlimit)
    simp only [hresult] at hspliced
    refine h.setFile hspliced.1 ?_
    rw [hspliced.2]
    exact .splice hgives rfl List.prefix_rfl

theorem FailedToWrite.changesBy (hwrite : v.FailedToWrite w content v') (h : v.Truthful)
    (hlimit : w.offset + w.readBytes < Word.limit) (hgives : gives w content) : v.ChangesBy gives v' := by
  cases hwrite with
  | @stopped e file hresult =>
    have hspliced := (h w.file).write (w.length_bytesOf content ▸ hlimit)
    simp only [hresult] at hspliced
    obtain ⟨htruthful, part, hpart, hdata⟩ := hspliced
    refine h.setFile htruthful ?_
    rw [hdata]
    exact .splice hgives rfl hpart

end View

open View

variable {v w x : View} {ds : List Deed} {d : Deed}

/-- Upkeep changes files only where it gives a page back. -/
theorem Upkeep.changesBy (h : Upkeep v w) (hv : v.Sound) (ht : v.Truthful) :
    v.ChangesBy (fun f content => ∃ p, Surrenders p f content v w []) w := by
  have hstep := h
  cases h with
  | read f => exact ht.readWindow f
  | @failToWrite _ p page f pa e content hpage hkind hframe hentry hdirty hcontent hwrite =>
    exact hwrite.changesBy ht (hv.window_lt_limit hpage hkind)
      ⟨p, .victim ⟨page, pa, e, hpage, hkind, hframe, hentry, hdirty, hcontent⟩ hstep (.inr hwrite)⟩
  | @writeBack v' p page f pa e content hheld hpage hkind hframe hentry hdirty hcontent hwrite =>
    have hvacated : (v'.vacate p pa (some { page with frame := none })).pages p = some { page with frame := none } := by
      simp [View.vacate]
    exact hwrite.changesBy ht (hv.window_lt_limit hpage hkind)
      ⟨p, .victim ⟨page, pa, e, hpage, hkind, hframe, hentry, hdirty, hcontent⟩ hstep (.inl ⟨_, hvacated, rfl⟩)⟩
  | _ => exact ht.changesBy_of_eq rfl

theorem View.Fills.changesBy {gives : FileWindow → PageContent → Prop} {kind kind' : PageKind} {content : PageContent}
    (h : v.Fills kind content kind' w) (ht : v.Truthful) : v.ChangesBy gives w := by
  cases h with
  | source => exact ht.readWindow _
  | first => exact ht.readWindow _
  | again => exact ht.readWindow _
  | _ => exact ht.changesBy_of_eq rfl

/-- A deed changes files only if it removes a dirty page. -/
theorem Does.changesBy (h : Does d v w) (hv : v.Sound) (ht : v.Truthful) :
    v.ChangesBy (fun f content => ∃ p, Surrenders p f content v w [d]) w := by
  have hstep := h
  cases h with
  | load h => cases h with | load _ _ _ _ hfills => exact hfills.changesBy ht
  | use h => cases h; exact ht.changesBy_of_eq rfl
  | describe h => cases h; exact ht.changesBy_of_eq rfl
  | copy h => cases h <;> exact ht.changesBy_of_eq rfl
  | release _ h =>
    cases h with
    | @resident v' page pa hpage hframe hwrite =>
      obtain ⟨rfl, _⟩ | ⟨f, e, content, hkind, hentry, hdirty, hcontent, hwrite⟩ := hwrite
      · exact ht.changesBy_of_eq rfl
      · exact hwrite.changesBy ht (hv.window_lt_limit hpage hkind)
          ⟨_, .removed ⟨page, pa, e, hpage, hkind, hframe, hentry, hdirty, hcontent⟩ hstep⟩
    | swapped => exact ht.changesBy_of_eq rfl
    | bare => exact ht.changesBy_of_eq rfl
  | lose _ h =>
    cases h with
    | @lose v' page f pa e content hpage hframe hkind hentry hdirty hcontent hwrite =>
      exact hwrite.changesBy ht (hv.window_lt_limit hpage hkind)
        ⟨_, .removed ⟨page, pa, e, hpage, hkind, hframe, hentry, hdirty, hcontent⟩ hstep⟩
  | _ => exact ht.changesBy_of_eq rfl

/-- What one step gives back is given back on the way. -/
theorem Surrenders.givesBack {p : PageId} {f : FileWindow} {content : PageContent} {gs : List Deed}
    (h : Surrenders p f content v w gs) (hrest : Trace w ds x) : GivesBack v (gs ++ ds) x f content :=
  ⟨p, [], gs, ds, v, w, rfl, .done, h, hrest⟩

theorem GivesBack.after {es : List Deed} {f : FileWindow} {content : PageContent} (h : GivesBack w ds x f content)
    (hbefore : Trace v es w) : GivesBack v (es ++ ds) x f content := by
  obtain ⟨p, es', gs, fs, u, u', rfl, htrace, hgives, hrest⟩ := h
  exact ⟨p, es ++ es', gs, fs, u, u', (List.append_assoc ..).symm, hbefore.append htrace, hgives, hrest⟩

/-- Whatever is done, files change only by what is given back on the way. -/
theorem Trace.changesBy (h : Trace v ds w) (hv : v.Sound) (ht : v.Truthful) : v.ChangesBy (GivesBack v ds w) w := by
  induction h with
  | done => exact ht.changesBy_of_eq rfl
  | upkeep hstep hrest ih =>
    obtain ⟨ht', hfirst⟩ := hstep.changesBy hv ht
    obtain ⟨ht'', hlater⟩ := ih (hstep.sound hv) ht'
    refine ⟨ht'', fun f => ((hfirst f).mono ?_).trans ((hlater f).mono ?_)⟩
    · rintro f content ⟨p, hgives⟩
      exact hgives.givesBack hrest
    · exact fun f content hgives => hgives.after (.of_upkept (.single hstep))
  | deed hdeed hrest ih =>
    obtain ⟨ht', hfirst⟩ := hdeed.changesBy hv ht
    obtain ⟨ht'', hlater⟩ := ih (hdeed.sound hv) ht'
    refine ⟨ht'', fun f => ((hfirst f).mono ?_).trans ((hlater f).mono ?_)⟩
    · rintro f content ⟨p, hgives⟩
      exact hgives.givesBack hrest
    · exact fun f content hgives => hgives.after (.single hdeed)

namespace System

variable {s : System}

end System

end DemandPaging
