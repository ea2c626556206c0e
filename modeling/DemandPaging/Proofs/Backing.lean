import DemandPaging.Paging.Backing
import DemandPaging.Proofs.Elementary
import DemandPaging.Proofs.File

/-!
Moving pages between frames and what stands behind them. Each of these actions either moves the page or leaves
behind at most a frame of unknown bytes: no slot is lost, and none is taken for nothing.
-/

namespace DemandPaging

/-- The page that the window shows over a file with the bytes `data`. -/
def FileWindow.contentOver (w : FileWindow) (data : Bytes) : PageContent :=
  Content.ofBytes pageSize ((data.drop w.offset).take w.readBytes)

/-- The bytes of a page that go into the window. -/
def FileWindow.bytesOf (w : FileWindow) (content : PageContent) : Bytes := Content.slice content 0 w.readBytes

/-- All bytes that the window covers can be read from `f` now. -/
def FileWindow.IsReadable (w : FileWindow) (f : File) : Prop :=
  (File.read w.offset w.readBytes f).1.failure = none ∧ (File.read w.offset w.readBytes f).1.bytes.length = w.readBytes

/-- The failure is a panic because frames or slots have run out. -/
def Failure.IsShortage (f : Failure) : Prop := ∃ what, f = .panic (.shortage what)

/-- The failure is an ordinary error, or a panic because frames or slots have run out. -/
def Failure.IsExpected (f : Failure) : Prop := (∃ e, f = .error e) ∨ f.IsShortage

namespace View

/-- The view after the bytes under the window were read. -/
def readWindow (v : View) (w : FileWindow) : View :=
  v.setFile w.file (File.read w.offset w.readBytes (v.file w.file)).2

/-- The second view is what the first one is after `content` was written through the window. -/
inductive WroteBack (w : FileWindow) (content : PageContent) (v : View) : View → Prop
  | nothing : w.readBytes = 0 → WroteBack w content v v
  | bytes {n : Nat} {file : File} :
    File.write w.offset (w.bytesOf content) (v.file w.file) = .ok n file → WroteBack w content v (v.setFile w.file file)

/-- The second view is what the first one is after a write of `content` through the window failed. -/
inductive FailedToWrite (w : FileWindow) (content : PageContent) (v : View) : View → Prop
  | stopped {e : Failure} {file : File} :
    File.write w.offset (w.bytesOf content) (v.file w.file) = .error e file →
    FailedToWrite w content v (v.setFile w.file file)

/-- The file-backed page at `p` over the window is in a frame with `content`, and was written. -/
def IsDirty (v : View) (p : PageId) (w : FileWindow) (content : PageContent) : Prop :=
  ∃ page pa e, v.pages p = some page ∧ page.kind = .file w ∧ page.frame = some pa ∧ v.entries p = some e ∧
    e.flags.dirty = true ∧ v.frames pa = some content

/-- The write of `content` through the window fails with `e`. -/
def WriteFails (v : View) (w : FileWindow) (content : PageContent) (e : Errno) : Prop :=
  ∃ file, File.write w.offset (w.bytesOf content) (v.file w.file) = .error (.error e) file

/-- The page at `p` was written, and the write to its file fails with `e`. -/
def CannotSave (v : View) (p : PageId) (e : Errno) : Prop := ∃ w content, v.IsDirty p w content ∧ v.WriteFails w content e

variable {v v' : View} {w : FileWindow} {content : PageContent}

/-- A write concerns only files. -/
theorem WroteBack.transport (h : v.WroteBack w content v') (u : View) (hfiles : u.files = v.files) :
    u.WroteBack w content { u with files := v'.files } ∧ v' = { v with files := v'.files } := by
  cases v
  cases u
  simp only at hfiles
  subst hfiles
  cases h with
  | nothing hzero => exact ⟨.nothing hzero, rfl⟩
  | bytes hresult => exact ⟨.bytes hresult, rfl⟩

theorem FailedToWrite.transport (h : v.FailedToWrite w content v') (u : View) (hfiles : u.files = v.files) :
    u.FailedToWrite w content { u with files := v'.files } ∧ v' = { v with files := v'.files } := by
  cases v
  cases u
  simp only at hfiles
  subst hfiles
  cases h with
  | stopped hresult => exact ⟨.stopped hresult, rfl⟩

end View

namespace Paging

variable {s : System}

theorem wp_loadWindow (hs : s.WellFormed) (w : FileWindow) {pa : PhysAddr} (hpa : (s.view.frames pa).isSome)
    {Q : Unit → System → Prop} {E : Failure → System → Prop}
    (hQ : w.offset + w.readBytes < Word.limit → ∀ t, t.WellFormed →
      t.view = (s.view.readWindow w).setFrame pa (some (w.contentOver (s.view.file w.file).data)) → Q () t)
    (hE : ∀ f t, t.WellFormed → ¬ w.IsReadable (s.view.file w.file) →
      (∃ content, t.view = (s.view.readWindow w).setFrame pa (some content)) → E f t) :
    wp (loadWindow w pa) s Q E := by
  obtain ⟨content, hcontent⟩ := Option.isSome_iff_exists.1 hpa
  obtain ⟨hdata, hlimit, hbytes⟩ := File.read_spec w.offset w.readBytes (s.file w.file)
  simp only [loadWindow, wp_bind]
  refine (wp_onFile _ _).2 ?_
  set read := File.read w.offset w.readBytes (s.file w.file) with hread
  set s₁ : System := { s with files := s.files.setIfInBounds w.file read.2 } with hs₁
  have hview₁ : s₁.view = s.view.readWindow w := view_setFile s w.file read.2
  have hcontent₁ : s₁.view.frames pa = some content := by rw [hview₁]; exact hcontent
  refine wp_fillFrame_of_view (wellFormed_setFile hs _ _) hcontent₁ _ fun t ht hview => ?_
  rw [hview₁] at hview
  cases hfailure : read.1.failure with
  | some e =>
    refine hE _ _ ht (fun hreadable => ?_) ⟨_, hview⟩
    have hnone : read.1.failure = none := hreadable.1
    rw [hfailure] at hnone
    cases hnone
  | none =>
    simp only
    by_cases hlength : read.1.bytes.length = w.readBytes
    · simp only [hlength, ne_eq, not_true_eq_false, ↓reduceIte]
      refine wp_fillFrame_of_view ht (by rw [hview]; exact Function.update_self ..) _ fun u hu hview' => ?_
      refine hQ (hlimit hfailure) u hu ?_
      have hfull : (read.1.bytes ++ List.replicate w.zeroBytes 0).length = pageSize := by
        have hle := w.readBytes_le
        simp [hlength, FileWindow.zeroBytes]
        omega
      rw [hview', hview, Content.overlay_zero_of_length _ hfull, Content.ofBytes_append_replicate, hbytes hlength]
      simp only [View.setFrame, Function.update_idem]
      rfl
    · simp only [hlength, ne_eq, not_false_eq_true, ↓reduceIte, wp_bind, wp_fail]
      exact hE _ _ ht (fun hreadable => hlength hreadable.2) ⟨_, hview⟩

theorem wp_writeBack (hs : s.WellFormed) {w : FileWindow} (hw : w.offset + w.readBytes < Word.limit) {pa : PhysAddr}
    {content : PageContent} (hpa : s.view.frames pa = some content)
    {Q : Unit → System → Prop} {E : Failure → System → Prop}
    (hQ : ∀ t, t.WellFormed → s.view.WroteBack w content t.view → Q () t)
    (hE : ∀ e t, t.WellFormed → s.view.FailedToWrite w content t.view → s.view.WriteFails w content e →
      E (.error e) t) :
    wp (writeBack w pa) s Q E := by
  unfold writeBack
  by_cases hzero : w.readBytes = 0
  · simp only [hzero, ↓reduceIte, wp_pure]
    exact hQ s hs (.nothing hzero)
  · have hcontent : s.pager.pool.content? pa = some content := FramePool.content?_of_frame? hpa
    have hlength : (Content.slice content 0 w.readBytes).length = w.readBytes := by
      simpa using w.readBytes_le
    have hwords : w.offset + (Content.slice content 0 w.readBytes).length < Word.limit := by rwa [hlength]
    have hwrite := File.write_spec hwords (s.file w.file)
    simp only [hzero, ↓reduceIte, wp_bind, wp_frame, hcontent, Option.getD_some, wp_onFile]
    cases hresult : File.write w.offset (Content.slice content 0 w.readBytes) (s.file w.file) with
    | error e file =>
      simp only [hresult] at hwrite ⊢
      obtain ⟨errno, rfl⟩ := hwrite
      exact hE errno _ (wellFormed_setFile hs _ _) ((view_setFile s w.file file).symm ▸ .stopped hresult) ⟨file, hresult⟩
    | ok n file =>
      simp only [hresult, hlength] at hwrite ⊢
      simp only [hwrite, ne_eq, not_true_eq_false, ↓reduceIte]
      refine wp_note_of_view (wellFormed_setFile hs _ _) _ fun t ht hview => hQ t ht ?_
      rw [hview, view_setFile]
      exact .bytes hresult

/-- The swap device takes another state in which the slots in use hold what `slots` says. -/
theorem view_setSwap {t : SwapDevice} {slots : SwapSlot → Option PageContent} (h : t.page? = slots) :
    ({ s with pager := { s.pager with swap := t } } : System).view = { s.view with slots := slots } := by
  subst h
  rfl

theorem wp_swapIn (hs : s.WellFormed) {slot : SwapSlot} {content : PageContent}
    (hslot : s.view.slots slot = some content) {pa : PhysAddr} (hpa : (s.view.frames pa).isSome)
    {Q : Unit → System → Prop} {E : Failure → System → Prop}
    (hQ : ∀ t, t.WellFormed → t.view = (s.view.setFrame pa (some content)).setSlot slot none → Q () t)
    (hE : ∀ f t, t.WellFormed → (SwapDevice.read slot s.pager.swap).1.failure ≠ none →
      (∃ content, t.view = s.view.setFrame pa (some content)) → E f t) :
    wp (swapIn slot pa) s Q E := by
  obtain ⟨old, hold⟩ := Option.isSome_iff_exists.1 hpa
  obtain ⟨hsame, hbytes⟩ := SwapDevice.read_spec slot s.pager.swap
  simp only [swapIn, wp_bind]
  refine (wp_onSwapDevice _).2 ?_
  set read := SwapDevice.read slot s.pager.swap with hread
  set s₁ : System := { s with pager := { s.pager with swap := read.2 } } with hs₁
  have hs₁' : s₁.WellFormed := wellFormed_withPager hs hs.pool (hsame.wellFormed hs.swap)
  have hview₁ : s₁.view = s.view :=
    view_setSwap (SwapDevice.page?_congr (by rw [hsame.slots]) fun slot _ => hsame.content slot)
  refine wp_fillFrame_of_view hs₁' (by rw [hview₁]; exact hold) _ fun t ht hview => ?_
  rw [hview₁] at hview
  cases hfailure : read.1.failure with
  | some e => exact hE _ _ ht (by simp [hfailure]) ⟨_, hview⟩
  | none =>
    simp only [wp_bind]
    have hslot' : (t.view.slots slot).isSome := by
      rw [hview]
      exact Option.isSome_iff_exists.2 ⟨content, hslot⟩
    refine wp_freeSlot_of_view ht hslot' fun u hu hview' => ?_
    refine wp_note_of_view hu _ fun v hv hview'' => hQ v hv ?_
    rw [hview'', hview', hview, hbytes hfailure, (SwapDevice.mem_members_of_page? hslot).2,
      Content.overlay_zero_of_length _ (by simp), Content.ofBytes_toList]

theorem wp_takeSlot (hs : s.WellFormed) {Q : SwapSlot → System → Prop} {E : Failure → System → Prop}
    (hQ : ∀ slot t, t.WellFormed → s.view.slots slot = none →
      (∃ content, t.view = s.view.setSlot slot (some content)) → Q slot t)
    (hE : ∀ f : Failure, f.IsShortage → E f s) : wp takeSlot s Q E := by
  simp only [takeSlot, wp_bind, wp_pager]
  cases halloc : s.pager.swap.alloc? with
  | none => exact hE _ ⟨_, rfl⟩
  | some found =>
    obtain ⟨slot, t⟩ := found
    obtain ⟨ht, hdisk, _, hfree, hmembers, _⟩ := hs.swap.of_alloc? halloc
    have hpage := SwapDevice.page?_of_insert hmembers fun s _ => SwapDevice.content_of_disk hdisk s
    exact hQ slot _ (wellFormed_withPager hs hs.pool ht) (SwapDevice.page?_eq_none_iff.2 hfree)
      ⟨t.content slot, view_setSwap hpage⟩

theorem wp_swapOut (hs : s.WellFormed) {pa : PhysAddr} {content : PageContent}
    (hpa : s.view.frames pa = some content) {Q : SwapSlot → System → Prop} {E : Failure → System → Prop}
    (hQ : ∀ slot t, t.WellFormed → s.view.slots slot = none → t.view = s.view.setSlot slot (some content) → Q slot t)
    (hE : ∀ f t, t.WellFormed → f.IsExpected → t.view = s.view → E f t) : wp (swapOut pa) s Q E := by
  simp only [swapOut, wp_bind]
  refine wp_takeSlot hs (fun slot t ht hslot hview => ?_) fun f hf => hE f s hs (.inr hf) rfl
  obtain ⟨old, hview⟩ := hview
  have hcontent : t.pager.pool.content? pa = some content := by
    apply FramePool.content?_of_frame?
    change t.view.frames pa = some content
    rw [hview]
    exact hpa
  have hused : slot.index ∈ t.pager.swap.slots.members := by
    have hsome : t.view.slots slot = some old := by
      rw [hview]
      exact Function.update_self ..
    exact (SwapDevice.mem_members_of_page? hsome).1
  have hwrite := SwapDevice.write_spec slot content t.pager.swap
  simp only [wp_frame, hcontent, Option.getD_some, wp_attempt, wp_onSwapDevice]
  -- The slot taken is the only one that the write touches, whether it succeeds or not.
  have hafter {t' : SwapDevice} (hsame : SwapDevice.SameOutside slot t.pager.swap t') :
      ({ t with pager := { t.pager with swap := t' } } : System).WellFormed ∧
        ({ t with pager := { t.pager with swap := t' } } : System).view =
          s.view.setSlot slot (some (t'.content slot)) := by
    refine ⟨wellFormed_withPager ht ht.pool (hsame.wellFormed ht.swap), ?_⟩
    have hpage : t'.page? = Function.update t.pager.swap.page? slot (some (t'.content slot)) :=
      SwapDevice.page?_of_insert (by rw [hsame.slots, Finset.insert_eq_of_mem hused]) hsame.content
    rw [view_setSwap hpage, show t.pager.swap.page? = t.view.slots from rfl, hview]
    simp only [View.setSlot, Function.update_idem]
  cases hresult : SwapDevice.write slot content t.pager.swap with
  | ok u t' =>
    simp only [hresult] at hwrite ⊢
    obtain ⟨hu, hview'⟩ := hafter hwrite.1
    simp only [wp_bind, wp_pure]
    refine wp_note_of_view hu _ fun v hv hview'' => hQ slot v hv hslot ?_
    rw [hview'', hview', hwrite.2]
  | error e t' =>
    simp only [hresult] at hwrite ⊢
    obtain ⟨hu, hview'⟩ := hafter hwrite
    simp only [wp_bind, wp_throw]
    refine wp_freeSlot_of_view hu (by rw [hview']; simp [View.setSlot]) fun v hv hview'' => hE _ v hv (.inl ⟨e, rfl⟩) ?_
    have hback : Function.update s.view.slots slot none = s.view.slots := hslot ▸ Function.update_eq_self ..
    rw [hview'', hview']
    simp only [View.setSlot, Function.update_idem, hback]

/-- What lies in the slot, whether or not it is in use, is copied into one that was free. -/
theorem wp_copySlot (hs : s.WellFormed) (slot : SwapSlot) {Q : SwapSlot → System → Prop}
    {E : Failure → System → Prop} (hQ : ∀ copy t, t.WellFormed → s.view.slots copy = none →
      t.view = s.view.setSlot copy (some (s.pager.swap.content slot)) → Q copy t)
    (hE : ∀ f t, t.WellFormed → t.view = s.view → E f t) : wp (copySlot slot) s Q E := by
  simp only [copySlot, wp_bind, wp_pager]
  split
  · exact hE _ s hs rfl
  · have hduplicate := hs.swap.duplicate slot
    refine (wp_onSwapDevice _).2 ?_
    cases hresult : SwapDevice.duplicate slot s.pager.swap with
    | ok copy t =>
      simp only [hresult] at hduplicate ⊢
      obtain ⟨ht, hfree, hmembers, hcopy, hother⟩ := hduplicate
      refine hQ copy _ (wellFormed_withPager hs hs.pool ht) (SwapDevice.page?_eq_none_iff.2 hfree) ?_
      rw [view_setSwap (SwapDevice.page?_of_insert hmembers hother), hcopy]
      rfl
    | error e t =>
      simp only [hresult] at hduplicate ⊢
      obtain ⟨ht, hslots, hother⟩ := hduplicate
      refine hE _ _ (wellFormed_withPager hs hs.pool ht) ?_
      rw [view_setSwap (SwapDevice.page?_congr (by rw [hslots]) hother)]
      rfl

end Paging

end DemandPaging
