import DemandPaging.Proofs.Removal

/-!
What the anonymous pages hold. Upkeep moves pages between frames and slots and changes nothing of this; what a deed
changes can be told from the deed alone.
-/

namespace DemandPaging

/-- What the anonymous pages that were loaded hold. -/
abbrev Memory := PageId → Option PageContent

namespace Deed

/-- What the pages hold after the deed. -/
def apply (m : Memory) : Deed → Memory
  | load p (some content) => Function.update m p (some content)
  | use p _ start bytes => Function.update m p ((m p).map (Content.overlay · start bytes))
  | copy p src _ => Function.update m p (m src)
  | remove p => Function.update m p none
  | _ => m

/-- The deed changes nothing that the page at `p` holds. -/
def Spares (p : PageId) (d : Deed) : Prop := ∀ m, d.apply m p = m p

theorem foldl_apply_of_spares {p : PageId} {ds : List Deed} (hds : ∀ d ∈ ds, d.Spares p) (m : Memory) :
    ds.foldl apply m p = m p := by
  induction ds generalizing m with
  | nil => rfl
  | cons d ds ih =>
    rw [List.foldl_cons, ih fun e he => hds e (List.mem_cons_of_mem _ he), hds d (List.mem_cons_self ..)]

end Deed

namespace View

variable {v w : View} {p : PageId}

theorem memory_of_page {page : PageEntry} (hpage : v.pages p = some page) : v.memory p = v.contentOf page := by
  rw [memory, hpage, Option.bind_some]

theorem memory_of_missing (hpage : v.pages p = none) : v.memory p = none := by
  rw [memory, hpage, Option.bind_none]

/-- Where a page stays and keeps what it owns, it holds what it did. -/
theorem memory_congr (hpages : w.pages p = v.pages p)
    (hframes : ∀ page pa, v.pages p = some page → page.frame = some pa → w.frames pa = v.frames pa)
    (hslots : ∀ slot, v.slotOf p = some slot → w.slots slot = v.slots slot) : w.memory p = v.memory p := by
  cases hpage : v.pages p with
  | none => rw [memory_of_missing hpage, memory_of_missing (hpages.trans hpage)]
  | some page =>
    rw [memory_of_page hpage, memory_of_page (hpages.trans hpage)]
    unfold contentOf
    split
    · cases hframe : page.frame with
      | none => rfl
      | some pa => rw [Option.bind_some, Option.bind_some, hframes page pa hpage hframe]
    next slot hkind => exact hslots slot (by simp [slotOf, hpage, hkind, PageKind.slot?])
    · rfl

/-- No two pages are in the same frame. -/
theorem Sound.eq_of_frame (h : v.Sound) {q : PageId} {page page' : PageEntry} {pa : PhysAddr}
    (hpage : v.pages p = some page) (hframe : page.frame = some pa) (hpage' : v.pages q = some page')
    (hframe' : page'.frame = some pa) : p = q := by
  have hresident := h.resident_of_frame hpage hframe
  rw [h.resident_of_frame hpage' hframe', Option.some.injEq] at hresident
  rw [← page.occupant_id p, ← hresident, page'.occupant_id]

/-- A frame in hand is no page's. -/
theorem Sound.ne_held (h : v.Sound) {page : PageEntry} {pa pa' : PhysAddr} (hpage : v.pages p = some page)
    (hframe : page.frame = some pa) (hheld : v.held = some pa') : pa ≠ pa' := by
  rintro rfl
  have hnone := (h.isSome_frame_of_held hheld).2
  rw [h.resident_of_frame hpage hframe] at hnone
  cases hnone

/-- A frame that is not in use is no page's. -/
theorem Sound.ne_free (h : v.Sound) {page : PageEntry} {pa pa' : PhysAddr} (hpage : v.pages p = some page)
    (hframe : page.frame = some pa) (hfree : v.frames pa' = none) : pa ≠ pa' := by
  rintro rfl
  have hused := h.isSome_frame_of_page hpage hframe
  rw [hfree] at hused
  cases hused

/-- A frame that is lent is no page's. -/
theorem Sound.ne_lent (h : v.Sound) {page : PageEntry} {pa pa' : PhysAddr} (hpage : v.pages p = some page)
    (hframe : page.frame = some pa) {n : Nat} (hlent : v.lent[n]? = some (some pa')) : pa ≠ pa' := by
  rintro rfl
  have howner := h.owner pa
  have hcount : 0 < v.lent.count (some pa) := Array.count_pos_iff.2 (Array.mem_of_getElem? hlent)
  have hle := Bool.toNat_le (v.frames pa).isSome
  rw [h.resident_of_frame hpage hframe] at howner
  simp only [Option.isSome_some, Bool.toNat_true] at howner
  omega

/-- A slot that is not in use is no page's. -/
theorem Sound.slot_ne_free (h : v.Sound) {slot slot' : SwapSlot} (hslot : v.slotOf p = some slot)
    (hfree : v.slots slot' = none) : slot ≠ slot' := by
  rintro rfl
  have hused := h.slots.used.2 ⟨p, hslot⟩
  rw [hfree] at hused
  cases hused

/-- A page that is in a frame and is anonymous holds the bytes of the frame; any other page holds nothing. -/
theorem Sound.memory_of_frame (h : v.Sound) {page : PageEntry} {pa : PhysAddr} {content : PageContent}
    (hpage : v.pages p = some page) (hframe : page.frame = some pa) (hcontent : v.frames pa = some content) :
    v.memory p = if page.kind = .anon none then some content else none := by
  have hkind := (h.page hpage).2.kind
  rw [memory_of_page hpage]
  unfold contentOf
  rw [hframe] at hkind
  cases hk : page.kind with
  | pending q =>
    rw [hk] at hkind
    cases hkind
  | file w => rfl
  | anon slot =>
    rw [hk] at hkind
    obtain rfl := hkind.2 (by simp)
    simp [hframe, hcontent]

/-- A page that is in no frame and leads to no slot holds nothing. -/
theorem memory_of_bare {page : PageEntry} (hpage : v.pages p = some page)
    (hframe : page.frame = none) (hkind : page.kind.slot? = none) : v.memory p = none := by
  rw [memory_of_page hpage]
  unfold contentOf
  cases hk : page.kind with
  | pending q => rfl
  | file w => rfl
  | anon slot =>
    rw [hk] at hkind
    obtain rfl : slot = none := hkind
    rw [hframe]
    rfl

end View

/-- No page can notice upkeep by what it holds. -/
theorem Upkeep.memory_eq {v w : View} (h : Upkeep v w) (hv : v.Sound) : w.memory = v.memory := by
  cases h with
  | mark => rfl
  | read => rfl
  | failToWrite _ _ _ _ _ _ hwrite => cases hwrite; rfl
  | @take pa hheld hfree =>
    funext q
    refine View.memory_congr rfl (fun page pa' hpage hframe => ?_) fun _ _ => rfl
    simp [hv.ne_free hpage hframe hfree]
  | @scribble pa hheld content =>
    funext q
    refine View.memory_congr rfl (fun page pa' hpage hframe => ?_) fun _ _ => rfl
    simp [hv.ne_held hpage hframe hheld]
  | @giveUp pa hheld =>
    funext q
    refine View.memory_congr rfl (fun page pa' hpage hframe => ?_) fun _ _ => rfl
    simp [hv.ne_held hpage hframe hheld]
  | @swapOut p page pa slot content hheld hpage hkind hframe hslot hcontent =>
    funext q
    by_cases hq : q = p
    · subst hq
      rw [hv.memory_of_frame hpage hframe hcontent, if_pos hkind]
      simp [View.memory, View.vacate, View.contentOf]
    · refine View.memory_congr (by simp [View.vacate, hq]) (fun _ _ _ _ => rfl) fun slot' hslot' => ?_
      simp [View.vacate, hv.slot_ne_free hslot' hslot]
  | @dropClean p page w pa e hheld hpage hkind hframe =>
    funext q
    by_cases hq : q = p
    · subst hq
      simp [View.memory, View.vacate, View.contentOf, hpage, hkind]
    · exact View.memory_congr (by simp [View.vacate, hq]) (fun _ _ _ _ => rfl) fun _ _ => rfl
  | @writeBack v' p page w pa e content hheld hpage hkind hframe _ _ _ hwrite =>
    funext q
    by_cases hq : q = p
    · subst hq
      simp [View.memory, View.vacate, View.contentOf, hpage, hkind]
    · cases hwrite with
      | nothing => exact View.memory_congr (by simp [View.vacate, hq]) (fun _ _ _ _ => rfl) fun _ _ => rfl
      | bytes => exact View.memory_congr (by simp [View.vacate, hq]) (fun _ _ _ _ => rfl) fun _ _ => rfl

theorem Upkept.memory_eq {v w : View} (h : Upkept v w) (hv : v.Sound) : w.memory = v.memory := by
  induction h with
  | refl => rfl
  | tail hpath hstep ih => rw [hstep.memory_eq (Upkept.sound hpath hv), ih]

theorem View.Freed.memory_kept {P : PageId → Prop} {v w : View} (h : View.Freed P v w) (hv : v.Sound) {p : PageId}
    (hp : ¬ P p) : w.memory p = v.memory p := by
  refine View.memory_congr (h.kept hp).1 (fun page pa hpage hframe => h.frame_kept ?_) fun slot hslot => h.slot_kept ?_
  · rintro ⟨q, page', hq, hpage', hframe'⟩
    exact hp (hv.eq_of_frame hpage hframe hpage' hframe' ▸ hq)
  · rintro ⟨q, hq, hslot'⟩
    exact hp (hv.slots.unique hslot hslot' ▸ hq)

theorem View.Freed.memory_gone {P : PageId → Prop} {v w : View} (h : View.Freed P v w) {p : PageId} (hp : P p) :
    w.memory p = none :=
  View.memory_of_missing (h.gone hp).1

/-- What is left of the memory when a page goes away. -/
theorem View.Freed.memory_eq {v w : View} {p : PageId} (h : View.Freed (· = p) v w) (hv : v.Sound) :
    w.memory = Function.update v.memory p none := by
  funext q
  by_cases hq : q = p
  · rw [hq, Function.update_self, h.memory_gone rfl]
  · rw [Function.update_of_ne hq, h.memory_kept hv hq]

theorem View.Loads.memory_eq {v w : View} {p : PageId} {pa : PhysAddr} {fresh : Option PageContent}
    (h : v.Loads p pa fresh w) (hv : v.Sound) : w.memory = Deed.apply v.memory (.load p fresh) := by
  cases h with
  | @load page content kind v' hheld hpage hframe hmap hfills =>
    have hother {q : PageId} (hq : q ≠ p) {slots : SwapSlot → Option PageContent} {files : FileId → Option File}
        {page' : PageEntry} {e : PageTableEntry}
        (hslots : ∀ slot, v.slotOf q = some slot → slots slot = v.slots slot) :
        ((({ v with files := files, slots := slots } : View).setFrame pa (some content)).lodge p pa page' e).memory q =
          v.memory q := by
      refine View.memory_congr (by simp [View.lodge, hq]) (fun page'' pa' hpage'' hframe'' => ?_) hslots
      simp [View.lodge, hv.ne_held hpage'' hframe'' hheld]
    have hslotOf : v.slotOf p = page.kind.slot? := by simp [View.slotOf, hpage]
    have heq {m : Memory} (hp : m p = v.memory p) (hrest : ∀ q, q ≠ p → m q = v.memory q) : m = v.memory := by
      rw [← Function.update_eq_self p v.memory]
      exact Function.eq_update_iff.2 ⟨hp, hrest⟩
    generalize hk : page.kind = k at hfills
    cases hfills with
    | zero | source =>
      refine Function.eq_update_iff.2 ⟨?_, fun q hq => hother hq fun _ _ => rfl⟩
      simp [View.memory, View.lodge, View.contentOf]
    | first | again =>
      refine heq ?_ fun q hq => hother hq fun _ _ => rfl
      simp [View.memory, View.lodge, View.contentOf, hpage, hk]
    | @swapIn slot content hslot =>
      refine heq ?_ fun q hq => hother hq fun slot' hslot' => Function.update_of_ne ?_ ..
      · simp [View.memory, View.lodge, View.contentOf, hpage, hk, hslot]
      · rintro rfl
        exact hq (hv.slots.unique hslot' (hslotOf.trans (by rw [hk]; rfl)))

theorem View.Uses.memory_eq {v w : View} {p : PageId} {write : Bool} {start : Nat} {bytes : Bytes}
    (h : v.Uses p write start bytes w) (hv : v.Sound) :
    w.memory = Deed.apply v.memory (.use p write start bytes) := by
  cases h with
  | @use page pa e content hpage hframe hentry hcontent =>
    funext q
    by_cases hq : q = p
    · subst hq
      have hold := hv.memory_of_frame hpage hframe hcontent
      have hsound := (View.Uses.use hpage hframe hentry hcontent : v.Uses q write start bytes _).sound hv
      rw [View.Sound.memory_of_frame hsound hpage hframe (Function.update_self ..), Deed.apply, Function.update_self,
        hold]
      split <;> rfl
    · simp only [Deed.apply, Function.update_of_ne hq]
      refine View.memory_congr rfl (fun page' pa' hpage' hframe' => Function.update_of_ne ?_ ..) fun _ _ => rfl
      rintro rfl
      exact hq (hv.eq_of_frame hpage' hframe' hpage hframe)

theorem View.Copies.memory_eq {v w : View} {p src : PageId} {page : PageEntry} (h : v.Copies p src page w)
    (hv : v.Sound) : w.memory = Deed.apply v.memory (.copy p src page) := by
  funext q
  by_cases hq : q = p
  · subst hq
    rw [Deed.apply, Function.update_self]
    have hw := h.sound hv
    cases h with
    | @resident pa e content _ _ _ _ _ hframe _ _ hmemory =>
      have hpage : ((v.setFrame pa (some content)).lodge q pa page e).pages q = some page := by simp [View.lodge]
      rw [hw.memory_of_frame hpage hframe (Function.update_self ..), hmemory]
    | swapped _ _ _ _ hkind _ hmemory =>
      rw [View.memory_of_page (Function.update_self ..), hmemory]
      simp [View.contentOf, hkind]
    | bare _ _ _ hframe hkind hmemory =>
      rw [View.memory_of_bare (Function.update_self ..) hframe hkind, hmemory]
  · rw [Deed.apply, Function.update_of_ne hq]
    cases h with
    | resident hheld =>
      refine View.memory_congr (by simp [View.lodge, hq]) (fun page' pa' hpage' hframe' => ?_) fun _ _ => rfl
      simp [View.lodge, hv.ne_held hpage' hframe' hheld]
    | swapped _ _ _ _ _ hslot =>
      refine View.memory_congr (by simp [hq]) (fun _ _ _ _ => rfl) fun slot' hslot' => ?_
      simp [hv.slot_ne_free hslot' hslot]
    | bare => exact View.memory_congr (by simp [hq]) (fun _ _ _ _ => rfl) fun _ _ => rfl

theorem View.Describes.memory_eq {v w : View} {p : PageId} {page : PageEntry} (h : v.Describes p page w) :
    w.memory = v.memory := by
  cases h with
  | describe _ hfree =>
    funext q
    by_cases hq : q = p
    · subst hq
      rw [View.memory_of_missing hfree]
      simp [View.memory, View.contentOf, PageEntry.pending]
    · exact View.memory_congr (by simp [hq]) (fun _ _ _ _ => rfl) fun _ _ => rfl

theorem Does.memory_eq {d : Deed} {v w : View} (h : Does d v w) (hv : v.Sound) : w.memory = d.apply v.memory := by
  cases h with
  | load h => exact h.memory_eq hv
  | use h => exact h.memory_eq hv
  | describe h => exact h.memory_eq
  | copy h => exact h.memory_eq hv
  | release hheld h => exact (h.freed hv hheld).memory_eq hv
  | lose hheld h => exact (h.freed hv hheld).memory_eq hv
  | @takeBack _ pa n hheld hlent =>
    funext q
    refine View.memory_congr rfl (fun page pa' hpage hframe => ?_) fun _ _ => rfl
    exact Function.update_of_ne (hv.ne_lent hpage hframe hlent) ..
  | _ => rfl

/-- The page at `p`, if it was loaded before, is still there and holds the same. -/
def View.KeepsAt (p : PageId) (v w : View) : Prop :=
  ∀ page, v.pages p = some page → page.kind.isPending = false →
    w.memory p = v.memory p ∧ ∃ page', w.pages p = some page' ∧ page'.kind.isPending = false

/-- The deed neither removes the page at `p` nor stores anything in it. -/
def Deed.LeavesAlone (p : PageId) : Deed → Prop
  | remove q => q ≠ p
  | use q _ _ bytes => q = p → bytes = []
  | _ => True

theorem View.KeepsAt.refl (p : PageId) (v : View) : v.KeepsAt p v := fun page hpage hkind => ⟨rfl, page, hpage, hkind⟩

theorem View.KeepsAt.trans {p : PageId} {u v w : View} (h : u.KeepsAt p v) (h' : v.KeepsAt p w) : u.KeepsAt p w := by
  intro page hpage hkind
  obtain ⟨hmemory, page', hpage', hkind'⟩ := h page hpage hkind
  obtain ⟨hmemory', hpage''⟩ := h' page' hpage' hkind'
  exact ⟨hmemory'.trans hmemory, hpage''⟩

theorem View.KeepsAt.memory_eq_some {p : PageId} {v w : View} (h : v.KeepsAt p w) {c : PageContent}
    (hc : v.memory p = some c) : w.memory p = some c := by
  obtain ⟨page, hpage, hcontent⟩ := Option.bind_eq_some_iff.1 hc
  have hkind : page.kind.isPending = false := by
    unfold View.contentOf at hcontent
    split at hcontent
    next hkind => rw [hkind]; rfl
    next hkind => rw [hkind]; rfl
    next => cases hcontent
  rw [(h page hpage hkind).1, hc]

theorem View.Sound.isPending_of_frame {v : View} (h : v.Sound) {p : PageId} {page : PageEntry} {pa : PhysAddr}
    (hpage : v.pages p = some page) (hframe : page.frame = some pa) : page.kind.isPending = false := by
  have hkind := (h.page hpage).2.kind
  rw [hframe] at hkind
  cases hk : page.kind with
  | pending q => rw [hk] at hkind; cases hkind
  | anon slot => rfl
  | file w => rfl

theorem Upkeep.keepsAt {v w : View} (h : Upkeep v w) (hv : v.Sound) (p : PageId) : v.KeepsAt p w := by
  have hmemory := congrFun (h.memory_eq hv) p
  have hsame (hpages : w.pages = v.pages) : v.KeepsAt p w := fun page hpage hkind =>
    ⟨hmemory, page, hpages ▸ hpage, hkind⟩
  have hset {q : PageId} {page' : PageEntry} (hpages : w.pages = Function.update v.pages q (some page'))
      (hkind' : page'.kind.isPending = false) : v.KeepsAt p w := by
    intro page hpage hkind
    refine ⟨hmemory, ?_⟩
    rw [hpages, Function.update_apply]
    split
    · exact ⟨page', rfl, hkind'⟩
    · exact ⟨page, hpage, hkind⟩
  cases h with
  | failToWrite _ _ _ _ _ _ hwrite => exact hsame hwrite.same.1
  | @swapOut q page _ slot => exact hset (q := q) rfl rfl
  | @dropClean q page _ _ _ _ _ hkind => exact hset (q := q) rfl (by simp [hkind, PageKind.isPending])
  | @writeBack v' q page _ pa _ _ _ _ hkind _ _ _ _ hwrite =>
    have hpages : (v'.vacate q pa (some { page with frame := none })).pages =
        Function.update v.pages q (some { page with frame := none }) := by
      rw [← hwrite.same.1]
      rfl
    exact hset hpages (by simp [hkind, PageKind.isPending])
  | _ => exact hsame rfl

theorem View.Loads.keepsAt {v w : View} {p q : PageId} {pa : PhysAddr} {fresh : Option PageContent}
    (h : v.Loads q pa fresh w) (hv : v.Sound) : v.KeepsAt p w := by
  have hmemory := h.memory_eq hv
  have hsound := h.sound hv
  obtain ⟨page, page', hpage, _, hpage', hframe', _⟩ := h.page
  cases h with
  | @load old content kind v' hheld hold hframe hmap hfills =>
    by_cases hpq : p = q
    · subst hpq
      intro page'' hpage'' hkind
      refine ⟨?_, page', hpage', hsound.isPending_of_frame hpage' hframe'⟩
      rw [hmemory]
      obtain rfl := Option.some.inj (hold.symm.trans hpage'')
      cases hk : old.kind with
      | pending q => rw [hk] at hkind; cases hkind
      | anon slot => rfl
      | file w => rfl
    · intro page'' hpage'' hkind
      refine ⟨?_, page'', ?_, hkind⟩
      · rw [hmemory]
        cases old.kind.fresh? content with
        | none => rfl
        | some c => exact Function.update_of_ne hpq ..
      · rw [hfills.same]
        simpa [View.lodge, hpq] using hpage''

theorem Does.keepsAt {d : Deed} {v w : View} (h : Does d v w) (hv : v.Sound) {p : PageId} (hd : d.LeavesAlone p) :
    v.KeepsAt p w := by
  have hmemory := congrFun (h.memory_eq hv) p
  have hsame (hpages : w.pages = v.pages) (hmemory : w.memory p = v.memory p) : v.KeepsAt p w :=
    fun page hpage hkind => ⟨hmemory, page, hpages ▸ hpage, hkind⟩
  have hfresh {q : PageId} (hfree : v.pages q = none)
      (hother : p ≠ q → w.memory p = v.memory p ∧ w.pages p = v.pages p) :
      v.KeepsAt p w := by
    intro page hpage hkind
    have hne : p ≠ q := by
      rintro rfl
      rw [hfree] at hpage
      cases hpage
    exact ⟨(hother hne).1, page, (hother hne).2.trans hpage, hkind⟩
  cases h with
  | load h => exact h.keepsAt hv
  | @use q write start bytes _ _ h =>
    refine hsame (by cases h; rfl) (hmemory.trans ?_)
    rw [Deed.apply, Function.update_apply]
    split
    next hpq =>
      rw [hd hpq.symm, hpq]
      cases v.memory q <;> simp
    next => rfl
  | @describe q page _ _ h =>
    have hold := h.memory_eq
    cases h with
    | describe _ hfree => exact hfresh hfree fun hne => ⟨congrFun hold p, by simp [hne]⟩
  | @copy q src page _ _ h =>
    have hother (hne : p ≠ q) : w.memory p = v.memory p := by
      rw [hmemory, Deed.apply, Function.update_of_ne hne]
    cases h with
    | resident _ _ _ hfree => exact hfresh hfree fun hne => ⟨hother hne, by simp [View.lodge, hne]⟩
    | swapped _ hfree => exact hfresh hfree fun hne => ⟨hother hne, by simp [hne]⟩
    | bare _ hfree => exact hfresh hfree fun hne => ⟨hother hne, by simp [hne]⟩
  | release hheld h =>
    have hfreed := h.freed hv hheld
    exact fun page hpage hkind => ⟨hfreed.memory_kept hv (Ne.symm hd), page,
      ((hfreed.kept (Ne.symm hd)).1).trans hpage, hkind⟩
  | lose hheld h =>
    have hfreed := h.freed hv hheld
    exact fun page hpage hkind => ⟨hfreed.memory_kept hv (Ne.symm hd), page,
      ((hfreed.kept (Ne.symm hd)).1).trans hpage, hkind⟩
  | _ => exact hsame rfl hmemory

/-- A loaded page holds the same as long as nothing is stored in it. -/
theorem Trace.keepsAt {v w : View} {ds : List Deed} (h : Trace v ds w) (hv : v.Sound) {p : PageId}
    (hds : ∀ d ∈ ds, d.LeavesAlone p) : v.KeepsAt p w := by
  induction h with
  | done => exact .refl p _
  | upkeep hstep _ ih => exact (hstep.keepsAt hv p).trans (ih (hstep.sound hv) hds)
  | deed hdeed _ ih =>
    exact (hdeed.keepsAt hv (hds _ (List.mem_cons_self ..))).trans
      (ih (hdeed.sound hv) fun d hd => hds d (List.mem_cons_of_mem _ hd))

/-- The deeds alone tell what the memory is after a trace. -/
theorem Trace.memory_eq {v w : View} {ds : List Deed} (h : Trace v ds w) (hv : v.Sound) :
    w.memory = ds.foldl Deed.apply v.memory := by
  induction h with
  | done => rfl
  | upkeep hstep _ ih => rw [ih (hstep.sound hv), hstep.memory_eq hv]
  | deed hdeed _ ih => rw [ih (hdeed.sound hv), hdeed.memory_eq hv, List.foldl_cons]

end DemandPaging
