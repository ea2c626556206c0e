import DemandPaging.Proofs.Reachability

/-!
Histories. What the anonymous pages hold can be told from what was done to them, without a look at frames or slots: each
page starts with what it was loaded with, and changes only by stores of its own address space.
-/

namespace DemandPaging

/-- What `content`, which the page at `p` holds, becomes by a store. -/
def Store.lay (p : PageId) (content : PageContent) (st : Store) : PageContent :=
  if st.page = p then Content.overlay content st.start st.bytes else content

/-- What `content`, which the page at `p` holds, becomes by stores. -/
def stored (p : PageId) (content : PageContent) (sts : List Store) : PageContent := sts.foldl (Store.lay p) content

/-- The byte that the store puts at `i` in the page at `p`. -/
def Store.byte? (st : Store) (p : PageId) (i : Nat) : Option UInt8 :=
  if st.page = p ∧ st.start ≤ i then st.bytes[i - st.start]? else none

/-- The byte that was stored last at `i` in the page at `p`. -/
def lastByte? (sts : List Store) (p : PageId) (i : Nat) : Option UInt8 := sts.reverse.findSome? (·.byte? p i)

/-- What the anonymous pages hold after the deeds, if there was nothing before. -/
def memoryOf (ds : List Deed) : Memory := ds.foldl Deed.apply fun _ => none

/-- An anonymous page that was never loaded is at `p`, and its loader produces `content`. -/
def View.Produces (v : View) (p : PageId) (content : PageContent) : Prop :=
  ∃ page source, v.pages p = some page ∧ page.kind = .pending (.anon source) ∧
    content = match source with
      | .zero => Content.zero pageSize
      | .file w => w.contentOver (v.file w.file).data

variable {u v w : View} {ds es : List Deed} {p : PageId} {content : PageContent}

theorem View.Loads.produces {pa : PhysAddr} (h : v.Loads p pa (some content) w) : v.Produces p content := by
  generalize hfresh : some content = fresh at h
  cases h with
  | @load page content' kind v' _ hpage _ _ hfills =>
    generalize hk : page.kind = k at hfresh hfills
    cases hfills with
    | zero => exact ⟨page, .zero, hpage, hk, Option.some.inj hfresh⟩
    | @source w _ => exact ⟨page, .file w, hpage, hk, Option.some.inj hfresh⟩
    | _ => cases hfresh

/-- A page is loaded for the first time with what its loader produces. -/
theorem Trace.produces (h : Trace u ds w) (hp : .load p (some content) ∈ ds) :
    ∃ es v, es <+: ds ∧ Trace u es v ∧ v.Produces p content := by
  obtain ⟨es, fs, rfl⟩ := List.append_of_mem hp
  obtain ⟨v, v', hbefore, hdoes, _⟩ := h.split
  cases hdoes with
  | load hload => exact ⟨es, v, List.prefix_append .., hbefore, hload.produces⟩

@[simp] theorem stored_nil (p : PageId) (content : PageContent) : stored p content [] = content := rfl

@[simp] theorem stored_cons (p : PageId) (content : PageContent) (st : Store) (sts : List Store) :
    stored p content (st :: sts) = stored p (st.lay p content) sts := rfl

theorem stored_append (p : PageId) (content : PageContent) (sts sts' : List Store) :
    stored p content (sts ++ sts') = stored p (stored p content sts) sts' := List.foldl_append

@[simp] theorem lastByte?_nil (p : PageId) (i : Nat) : lastByte? [] p i = none := rfl

@[simp] theorem lastByte?_append (sts sts' : List Store) (p : PageId) (i : Nat) :
    lastByte? (sts ++ sts') p i = (lastByte? sts' p i).or (lastByte? sts p i) := by
  simp only [lastByte?, List.reverse_append, List.findSome?_append]

theorem Store.getElem_lay (st : Store) (p : PageId) (content : PageContent) {i : Nat} (hi : i < pageSize) :
    (st.lay p content)[i] = (st.byte? p i).getD content[i] := by
  by_cases hp : st.page = p
  · by_cases hs : st.start ≤ pageSize
    · simp only [lay, byte?, hp, true_and, ↓reduceIte, Content.getElem_overlay _ _ _ hs]
      split <;> rfl
    · have hstart : ¬ st.start ≤ i := by omega
      simp only [lay, byte?, hp, true_and, ↓reduceIte, hstart, Option.getD_none]
      exact Content.getElem_overlay_of_le _ _ (by omega) i hi
  · simp [lay, byte?, hp]

/-- Every byte of a page is the last one that was stored there, or the one that was there before. -/
theorem getElem_stored (p : PageId) (content : PageContent) (sts : List Store) {i : Nat} (hi : i < pageSize) :
    (stored p content sts)[i] = (lastByte? sts p i).getD content[i] := by
  induction sts generalizing content with
  | nil => rfl
  | cons st sts ih =>
    rw [stored_cons, ih, st.getElem_lay p content hi, ← List.singleton_append, lastByte?_append]
    cases lastByte? sts p i with
    | some b => rfl
    | none => simp [lastByte?, Option.or]

/-- What a loaded page holds after a deed that does not remove it. -/
theorem Does.memory_eq_stored {d : Deed} (h : Does d v w) (hv : v.Sound) (hp : v.memory p = some content)
    (hd : d ≠ .remove p) : w.memory p = some (stored p content d.store?.toList) := by
  have hnone {q : PageId} (hq : v.pages q = none) : p ≠ q := by
    rintro rfl
    rw [View.memory_of_missing hq] at hp
    cases hp
  rw [h.memory_eq hv]
  cases h with
  | @load q _ fresh _ _ hload =>
    cases fresh with
    | none => exact hp
    | some content' =>
      have hq : p ≠ q := by
        rintro rfl
        obtain ⟨page, source, hpage, hkind, _⟩ := hload.produces
        rw [View.memory_of_page hpage, View.contentOf, hkind] at hp
        cases hp
      exact (Function.update_of_ne hq ..).trans hp
  | @use q write start bytes _ _ huse =>
    by_cases hq : p = q
    · subst hq
      by_cases hbytes : bytes = [] <;> simp [Deed.apply, Deed.store?, hp, hbytes, Store.lay]
    · by_cases hbytes : bytes = [] <;> simp [Deed.apply, Deed.store?, hp, hbytes, Store.lay, hq, Ne.symm hq]
  | copy hcopy => exact (Function.update_of_ne (hnone hcopy.pages_eq_none) ..).trans hp
  | release => exact (Function.update_of_ne (fun e : p = _ => hd (e ▸ rfl)) ..).trans hp
  | lose => exact (Function.update_of_ne (fun e : p = _ => hd (e ▸ rfl)) ..).trans hp
  | _ => exact hp

/-- A loaded page changes only by stores, as long as it is not removed. -/
theorem Trace.memory_eq_stored (h : Trace v ds w) (hv : v.Sound) (hp : v.memory p = some content)
    (hds : .remove p ∉ ds) : w.memory p = some (stored p content (storesOf ds)) := by
  induction h generalizing content with
  | done => exact hp
  | upkeep hstep _ ih => exact ih (hstep.sound hv) ((congrFun (hstep.memory_eq hv) p).trans hp) hds
  | @deed v w x d ds hdeed _ ih =>
    rw [List.mem_cons, not_or] at hds
    rw [ih (hdeed.sound hv) (hdeed.memory_eq_stored hv hp (Ne.symm hds.1)) hds.2]
    cases hstore : d.store? with
    | none => simp [storesOf, hstore]
    | some st => simp [storesOf, hstore]

namespace Call

/-- The address space whose pages the call may change. -/
def target? (s : System) : Call → Option SpaceId
  | fork _ _ => some s.nextSpace
  | c => c.space?

/-- No call changes what the pages of other address spaces hold. -/
theorem Allows.spares {c : Call} {s : System} {d : Deed} (h : c.Allows s d) (hp : c.target? s ≠ some p.space) :
    d.Spares p := by
  have hother {q : PageId} (hq : c.target? s = some q.space) : p ≠ q := by
    rintro rfl
    exact hp hq
  have hupdate {q : PageId} (hq : c.target? s = some q.space) {m : Memory} {content : Option PageContent} :
      Function.update m q content p = m p := Function.update_of_ne (hother hq) ..
  have hload {q : PageId} (hq : c.target? s = some q.space) (fresh : Option PageContent) :
      (Deed.load q fresh).Spares p := by
    cases fresh with
    | none => exact fun _ => rfl
    | some content => exact fun _ => hupdate hq
  have hstack {q : PageId} (hq : c.target? s = some q.space) (hd : d.IsOfStack q) : d.Spares p := by
    obtain rfl | ⟨fresh, rfl⟩ | rfl := hd
    · exact fun _ => rfl
    · exact hload hq fresh
    · exact fun _ => hupdate hq
  have haccess {id : SpaceId} (hid : c.target? s = some id) (hd : d.IsOfAccess id) : d.Spares p := by
    obtain ⟨va, hd⟩ | ⟨va, write, start, bytes, rfl, _⟩ := hd
    · exact hstack hid hd
    · exact fun _ => hupdate hid
  cases c with
  | create => cases h; exact fun _ => rfl
  | drop id =>
    obtain (rfl | ⟨va, rfl⟩) | rfl := h
    · exact fun _ => rfl
    · exact fun _ => hupdate rfl
    · exact fun _ => rfl
  | teardown id =>
    obtain rfl | ⟨va, rfl⟩ := h
    · exact fun _ => rfl
    · exact fun _ => hupdate rfl
  | fork id table => exact Deed.IsOfFork.spares h fun e => hp (e ▸ rfl)
  | duplicate dst src => exact Deed.IsOfCopy.spares h fun e => hp (e ▸ rfl)
  | addPage id type va writable source => obtain ⟨q, _, rfl⟩ := h; exact fun _ => rfl
  | removePage id va => cases h; exact fun _ => hupdate rfl
  | claim id va => obtain ⟨fresh, rfl⟩ := h; exact hload rfl fresh
  | mmap id start length writable file offset => obtain ⟨i, rfl⟩ | ⟨rfl, _⟩ := h <;> exact fun _ => rfl
  | munmap id va =>
    obtain rfl | ⟨r, _, a, _, rfl⟩ := h
    · exact fun _ => rfl
    · exact fun _ => hupdate rfl
  | mapSegment id file offset start readBytes zeroBytes writable =>
    obtain ⟨va, source, rfl, _⟩ | ⟨va, rfl⟩ := h
    · exact fun _ => rfl
    · exact fun _ => hupdate rfl
  | mapStack id => exact hstack rfl h
  | touch id va write value =>
    obtain ⟨fresh, rfl⟩ | ⟨start, bytes, rfl⟩ := h
    · exact hload rfl fresh
    · exact fun _ => hupdate rfl
  | lend => cases h; exact fun _ => rfl
  | giveBack n => cases h; exact fun _ => rfl
  | _ => exact haccess rfl h

end Call

namespace System

/-- The page at `p` is in a frame with `content`, or in a slot whose sectors hold `content`. -/
inductive Holds (s : System) (p : PageId) (content : PageContent) : Prop
  | frame {page : PageEntry} {pa : PhysAddr} (hpage : s.page? p = some page) (hframe : page.frame = some pa)
    (hcontent : s.pager.pool.content? pa = some content)
  | slot {page : PageEntry} {slot : SwapSlot} (hpage : s.page? p = some page) (hkind : page.kind = .anon (some slot))
    (hframe : page.frame = none) (hcontent : s.pager.swap.content slot = content)

/-- A run leads to the state, and the deeds are what was done on the way. -/
inductive History : System → List Deed → Prop
  | initial {s : System} (h : s.Initial) : History s []
  | call {s t : System} {ds es : List Deed} (h : History s ds) {c : Call} {r : Except Failure Answer}
    (hc : c.Admissible s) (hrun : c.outcome s = (r, t)) (htrace : Trace s.view es t.view)
    (hexplains : c.Explains s r es t) : History t (ds ++ es)
  | device {s t : System} {ds : List Deed} (h : History s ds) (ht : s.Device t) : History t ds

/-- What the deeds `es` of the call `c` did to the memory, which they took from `m` to `m'`. -/
structure Changes (s : System) (c : Call) (es : List Deed) (m m' : Memory) : Prop where
  /-- A page that is loaded for the first time holds what its loader produces then. -/
  produced : ∀ {p content}, .load p (some content) ∈ es → ∃ fs v, fs <+: es ∧ Trace s.view fs v ∧ v.Produces p content
  /-- A page that was loaded before changes by the stores of the call only. -/
  stored : ∀ {p content}, m p = some content → .remove p ∉ es → m' p = some (stored p content (storesOf es))
  /-- The pages of other address spaces do not change. -/
  spared : ∀ {p}, c.target? s ≠ some p.space → m' p = m p

variable {s t : System} {ds : List Deed}

theorem History.reachable (h : s.History ds) : s.Reachable := by
  induction h with
  | initial h => exact .initial h
  | call _ hc hrun _ _ ih =>
    have hcall := ih.call hc
    rwa [hrun] at hcall
  | device _ ht ih => exact ih.device ht

/-- The deeds of a run tell what the memory is. -/
theorem History.memory_eq (h : s.History ds) : s.view.memory = memoryOf ds := by
  induction h with
  | initial h =>
    funext p
    exact View.memory_of_missing (h.page?_eq_none p)
  | call h _ _ htrace _ ih => rw [htrace.memory_eq h.reachable.sound, ih, memoryOf, memoryOf, List.foldl_append]
  | device _ ht ih =>
    obtain ⟨files, refuses, hview, _⟩ := ht.view_eq
    rw [hview, ← ih]
    rfl

theorem Reachable.exists_history (h : s.Reachable) : ∃ ds, s.History ds := by
  induction h with
  | initial h => exact ⟨[], .initial h⟩
  | @call s h c hc ih =>
    obtain ⟨ds, hds⟩ := ih
    obtain ⟨_, es, htrace, hexplains⟩ := exists_explains h.wellFormed h.sound hc
    exact ⟨ds ++ es, hds.call hc rfl htrace hexplains⟩
  | device _ ht ih =>
    obtain ⟨ds, hds⟩ := ih
    exact ⟨ds, hds.device ht⟩

/-- What an anonymous page holds is in its frame or in its slot. -/
theorem holds_of_anonymous (hv : s.view.Sound) {page : PageEntry} {slot : Option SwapSlot}
    (hpage : s.page? p = some page)
    (hkind : page.kind = .anon slot) : ∃ content, s.view.memory p = some content ∧ s.Holds p content := by
  have hpage' : s.view.pages p = some page := hpage
  have hfits := (hv.page hpage').2.kind
  rw [hkind] at hfits
  cases hframe : page.frame with
  | some pa =>
    obtain ⟨content, hcontent⟩ := Option.isSome_iff_exists.1 (hv.isSome_frame_of_page hpage' hframe)
    obtain rfl : slot = none := hfits.2 (by simp [hframe])
    refine ⟨content, ?_, .frame hpage hframe (FramePool.content?_of_frame? hcontent)⟩
    rw [hv.memory_of_frame hpage' hframe hcontent, if_pos hkind]
  | none =>
    cases slot with
    | none => exact absurd hframe (hfits.1 rfl)
    | some slot =>
      have hused : (s.view.slots slot).isSome :=
        hv.slots.used.2 ⟨p, by simp [View.slotOf, hpage', hkind, PageKind.slot?]⟩
      obtain ⟨content, hcontent⟩ := Option.isSome_iff_exists.1 hused
      refine ⟨content, ?_, .slot hpage hkind hframe (SwapDevice.mem_members_of_page? hcontent).2⟩
      rw [View.memory_of_page hpage', View.contentOf, hkind]
      exact hcontent

/-- What the memory says of a page, the page holds. -/
theorem holds_of_memory (hv : s.view.Sound) {content : PageContent} (h : s.view.memory p = some content) :
    s.Holds p content := by
  cases hpage : s.page? p with
  | none =>
    rw [View.memory_of_missing hpage] at h
    cases h
  | some page =>
    cases hkind : page.kind with
    | anon slot =>
      obtain ⟨content', hmemory, hholds⟩ := holds_of_anonymous hv hpage hkind
      obtain rfl := Option.some.inj (h.symm.trans hmemory)
      exact hholds
    | _ =>
      rw [View.memory_of_page hpage, View.contentOf, hkind] at h
      cases h

/-- Paging is invisible: whatever moves between frames and slots, an anonymous page holds what was done to it, and every
call does to it what it says. -/
theorem Reachable.memory_as_done (h : s.Reachable) :
    (∃ ds, s.History ds) ∧ ∀ ds, s.History ds →
      (∀ p page slot, s.page? p = some page → page.kind = .anon slot →
        ∃ content, memoryOf ds p = some content ∧ s.Holds p content) ∧
      s.view.memory = memoryOf ds ∧
      ∀ c : Call, c.Admissible s → ∃ es, (c.outcome s).2.History (ds ++ es) ∧
        c.Explains s (c.outcome s).1 es (c.outcome s).2 ∧ (c.outcome s).2.view.memory = memoryOf (ds ++ es) ∧
        s.Changes c es (memoryOf ds) (memoryOf (ds ++ es)) := by
  refine ⟨h.exists_history, fun ds hds => ⟨fun p page slot hpage hkind => ?_, hds.memory_eq, fun c hc => ?_⟩⟩
  · rw [← hds.memory_eq]
    exact holds_of_anonymous h.sound hpage hkind
  · obtain ⟨_, es, htrace, hexplains⟩ := exists_explains h.wellFormed h.sound hc
    have hnext : (c.outcome s).2.History (ds ++ es) := hds.call hc rfl htrace hexplains
    refine ⟨es, hnext, hexplains, hnext.memory_eq, htrace.produces, fun hp hes => ?_, fun {p} hp => ?_⟩
    · rw [← hnext.memory_eq]
      exact htrace.memory_eq_stored h.sound (hds.memory_eq ▸ hp) hes
    · rw [← hnext.memory_eq, ← hds.memory_eq, htrace.memory_eq h.sound]
      exact Deed.foldl_apply_of_spares (fun d hd => (hexplains.allowed d hd).spares hp) _

/-- A page is written, and makes way for another one. -/
def ousted : System := (small {}).after
  [.create, .addPage 0 .anon ⟨0x1000⟩ true .zero, .addPage 0 .anon ⟨0x2000⟩ true .zero, .store 0 ⟨0x1003⟩ 0 7,
    .claim 0 ⟨0x2000⟩]

/-- A page that is in a slot has the byte that was stored in it when it was in a frame. -/
theorem exists_memory_as_done : ∃ (s : System) (ds : List Deed) (content : PageContent), s.Reachable ∧ s.History ds ∧
    (s.page? ⟨0, ⟨0x1000⟩⟩).map PageEntry.kind = some (.anon (some ⟨0⟩)) ∧
    memoryOf ds ⟨0, ⟨0x1000⟩⟩ = some content ∧ s.Holds ⟨0, ⟨0x1000⟩⟩ content ∧ Content.byteAt content 3 = 7 := by
  have hreach : ousted.Reachable := (Reachable.initial (initial_small {})).after (by decide +kernel)
  obtain ⟨⟨ds, hds⟩, hdone⟩ := Reachable.memory_as_done hreach
  obtain ⟨hholds, hmemory, _⟩ := hdone ds hds
  have hkind : (ousted.page? ⟨0, ⟨0x1000⟩⟩).map PageEntry.kind = some (.anon (some ⟨0⟩)) := by decide +kernel
  have hbyte : (ousted.view.memory ⟨0, ⟨0x1000⟩⟩).map (Content.byteAt · 3) = some 7 := by decide +kernel
  obtain ⟨page, hpage, hpage'⟩ := Option.map_eq_some_iff.1 hkind
  obtain ⟨content, hcontent, hheld⟩ := hholds _ page _ hpage hpage'
  rw [hmemory, hcontent, Option.map_some, Option.some.injEq] at hbyte
  exact ⟨ousted, ds, content, hreach, hds, hkind, hcontent, hheld, hbyte⟩

end System

end DemandPaging
