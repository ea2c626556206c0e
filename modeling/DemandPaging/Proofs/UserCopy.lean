import DemandPaging.Paging.UserCopy
import DemandPaging.Proofs.Image
import DemandPaging.Proofs.Memory

/-!
Access of the kernel to user memory. What is read is what the page holds, and nothing is stored but what was asked for.
-/

namespace DemandPaging

/-- Bytes stored in a page from `start` on. -/
structure Store where
  page : PageId
  start : Nat
  bytes : Bytes

/-- What the deed stores. -/
def Deed.store? : Deed → Option Store
  | use p _ start bytes => if bytes = [] then none else some ⟨p, start, bytes⟩
  | _ => none

/-- What the deeds store, in order. -/
def storesOf (ds : List Deed) : List Store := ds.filterMap Deed.store?

/-- What a store of `bytes` from `va` on puts in each page of `id` that it reaches. -/
def storesFrom (id : SpaceId) (va : VirtAddr) (bytes : Bytes) : List Store :=
  (Piece.run va.toNat bytes.length).map fun p =>
    ⟨⟨id, (⟨p.start⟩ : VirtAddr).pageDown⟩, p.offset, p.part va.toNat bytes⟩

/-- The deed loads or uses the page at `p`. -/
def Deed.IsOfTouch (p : PageId) (write : Bool) (d : Deed) : Prop :=
  (∃ fresh, d = .load p fresh) ∨ ∃ start bytes, d = .use p write start bytes

/-- The deed loads or uses a page of `id`, or makes its stack grow. It stores nothing without saying that it writes. -/
def Deed.IsOfAccess (id : SpaceId) (d : Deed) : Prop :=
  (∃ va, d.IsOfStack ⟨id, va⟩) ∨
    ∃ va write start bytes, d = .use ⟨id, va⟩ write start bytes ∧ (bytes = [] ∨ write = true)

/-- The deeds are those of an access to pages of `id`, which writes in no pages but those in `W`. -/
structure Accesses (id : SpaceId) (W : PageId → Prop) (ds : List Deed) : Prop where
  deeds : ∀ d ∈ ds, d.IsOfAccess id
  undoes : UndoesOnly ds
  writes : ∀ {p start bytes}, .use p true start bytes ∈ ds → W p

theorem Deed.IsOfAccess.isOnPages {id : SpaceId} {d : Deed} (h : d.IsOfAccess id) : d.IsOnPages := by
  obtain ⟨va, rfl | ⟨fresh, rfl⟩ | rfl⟩ | ⟨va, write, start, bytes, rfl, _⟩ := h <;> trivial

namespace Accesses

variable {id : SpaceId} {W W' : PageId → Prop} {ds es : List Deed}

theorem nil : Accesses id W [] := ⟨by simp, trivial, by simp⟩

theorem mono (h : Accesses id W ds) (hW : ∀ p, W p → W' p) : Accesses id W' ds :=
  ⟨h.deeds, h.undoes, fun hd => hW _ (h.writes hd)⟩

theorem append (h : Accesses id W ds) (h' : Accesses id W es) : Accesses id W (ds ++ es) :=
  ⟨fun d hd => (List.mem_append.1 hd).elim (h.deeds d) (h'.deeds d), h.undoes.append h'.undoes,
    fun hd => (List.mem_append.1 hd).elim h.writes h'.writes⟩

theorem use (id : SpaceId) (va : VirtAddr) {write : Bool} (start : Nat) {bytes : Bytes}
    (h : bytes = [] ∨ write = true) (hW : write = true → W ⟨id, va⟩) :
    Accesses id W [.use ⟨id, va⟩ write start bytes] := by
  refine ⟨fun _ hd => .inr ⟨va, write, start, bytes, List.mem_singleton.1 hd, h⟩, trivial, fun hd => ?_⟩
  obtain ⟨rfl, hwrite, _⟩ := Deed.use.inj (List.mem_singleton.1 hd)
  exact hW hwrite.symm

theorem load (id : SpaceId) (va : VirtAddr) (fresh : Option PageContent) : Accesses id W [.load ⟨id, va⟩ fresh] :=
  ⟨fun _ hd => .inl ⟨va, .inr (.inl ⟨fresh, List.mem_singleton.1 hd⟩)⟩, trivial, by simp⟩

theorem ofLoads {va : VirtAddr} (h : ds = [] ∨ ∃ fresh, ds = [.load ⟨id, va⟩ fresh]) : Accesses id W ds := by
  obtain rfl | ⟨fresh, rfl⟩ := h
  · exact nil
  · exact load id va fresh

end Accesses

theorem storesOf_cons (d : Deed) (ds : List Deed) : storesOf (d :: ds) = d.store?.toList ++ storesOf ds := by
  cases hstore : d.store? <;> simp [storesOf, hstore]

@[simp] theorem storesOf_append (ds es : List Deed) : storesOf (ds ++ es) = storesOf ds ++ storesOf es :=
  List.filterMap_append ..

theorem storesOf_loads {p : PageId} {ds : List Deed} (h : ds = [] ∨ ∃ fresh, ds = [.load p fresh]) :
    storesOf ds = [] := by
  obtain rfl | ⟨fresh, rfl⟩ := h <;> rfl

theorem leavesAlone_of_loads {p : PageId} {ds : List Deed} (h : ds = [] ∨ ∃ fresh, ds = [.load p fresh]) (q : PageId) :
    ∀ d ∈ ds, d.LeavesAlone q := by
  obtain rfl | ⟨fresh, rfl⟩ := h <;> simp [Deed.LeavesAlone]

namespace View

/-- The page at `p` is resident, and `content` is in its frame. -/
def Shows (v : View) (p : PageId) (content : PageContent) : Prop :=
  ∃ page pa, v.pages p = some page ∧ page.frame = some pa ∧ v.frames pa = some content

/-- There is a page at `p`, and it was loaded. -/
def IsLoaded (v : View) (p : PageId) : Prop := ∃ page, v.pages p = some page ∧ page.kind.isPending = false

variable {v w : View} {p : PageId} {content : PageContent}

theorem Shows.isLoaded (h : v.Shows p content) (hv : v.Sound) : v.IsLoaded p := by
  obtain ⟨page, pa, hpage, hframe, -⟩ := h
  exact ⟨page, hpage, hv.isPending_of_frame hpage hframe⟩

theorem KeepsAt.isLoaded (h : v.KeepsAt p w) (hp : v.IsLoaded p) : w.IsLoaded p := by
  obtain ⟨page, hpage, hkind⟩ := hp
  exact (h page hpage hkind).2

theorem Shows.eq_of_memory (h : v.Shows p content) (hv : v.Sound) {c : PageContent} (hc : v.memory p = some c) :
    c = content := by
  obtain ⟨page, pa, hpage, hframe, hcontent⟩ := h
  rw [hv.memory_of_frame hpage hframe hcontent] at hc
  split at hc
  · exact (Option.some.inj hc).symm
  · cases hc

/-- A page that was shown holds the same as long as it is kept. -/
theorem Shows.eq_of_keepsAt (h : v.Shows p content) (hv : v.Sound) (hkeep : v.KeepsAt p w) {c : PageContent}
    (hc : w.memory p = some c) : c = content := by
  obtain ⟨page, pa, hpage, hframe, hcontent⟩ := h
  obtain ⟨hmemory, _⟩ := hkeep page hpage (hv.isPending_of_frame hpage hframe)
  exact Shows.eq_of_memory ⟨page, pa, hpage, hframe, hcontent⟩ hv (hmemory ▸ hc)

/-- A page is marked as used. -/
theorem Uses.mark {page : PageEntry} {pa : PhysAddr} {e : PageTableEntry} (hpage : v.pages p = some page)
    (hframe : page.frame = some pa) (hentry : v.entries p = some e) (hcontent : v.frames pa = some content)
    (write : Bool) :
    v.Uses p write 0 []
      (v.setEntry p (some { e with flags := { e.flags with accessed := true, dirty := e.flags.dirty || write } })) := by
  have huse : v.Uses p write 0 [] _ := Uses.use hpage hframe hentry hcontent
  rwa [Content.overlay_nil, setFrame_eq_self] at huse
  exact hcontent

/-- Bytes are stored in a page that is marked already. -/
theorem Uses.put {page : PageEntry} {pa : PhysAddr} {e : PageTableEntry} (hpage : v.pages p = some page)
    (hframe : page.frame = some pa) (hentry : v.entries p = some e) (hcontent : v.frames pa = some content)
    {write : Bool} (haccessed : e.flags.accessed = true) (hdirty : write = true → e.flags.dirty = true) (start : Nat)
    (bytes : Bytes) :
    v.Uses p write start bytes (v.setFrame pa (some (Content.overlay content start bytes))) := by
  have huse : v.Uses p write start bytes _ := Uses.use hpage hframe hentry hcontent
  have hflags : { e with flags := { e.flags with accessed := true, dirty := e.flags.dirty || write } } = e := by
    obtain ⟨pa, flags⟩ := e
    cases flags
    cases write <;> simp_all
  rwa [hflags, setEntry_eq_self hentry] at huse

end View

/-- The bytes are those that the anonymous pages of `id` among them hold from `start` on. -/
def Reads (id : SpaceId) (start : Nat) (bytes : Bytes) (m : Memory) : Prop :=
  ∀ j b, bytes[j]? = some b → ∀ content, m ⟨id, (⟨start + j⟩ : VirtAddr).pageDown⟩ = some content →
    Content.byteAt content ((start + j) % pageSize) = b

theorem Reads.nil (id : SpaceId) (start : Nat) (m : Memory) : Reads id start [] m := by
  intro j b hb
  simp at hb

theorem Reads.append {id : SpaceId} {start : Nat} {bytes bytes' : Bytes} {m : Memory} (h : Reads id start bytes m)
    (h' : Reads id (start + bytes.length) bytes' m) : Reads id start (bytes ++ bytes') m := by
  intro j b hb
  by_cases hj : j < bytes.length
  · exact h j b (by rwa [List.getElem?_append_left hj] at hb)
  · rw [List.getElem?_append_right (by omega)] at hb
    have hrest := h' _ b hb
    rwa [show start + bytes.length + (j - bytes.length) = start + j by omega] at hrest

/-- The part of a page from `start` on. -/
theorem reads_slice {id : SpaceId} {start count : Nat} (hfit : start % pageSize + count ≤ pageSize)
    {content : PageContent} {m : Memory}
    (hm : ∀ c, m ⟨id, (⟨start⟩ : VirtAddr).pageDown⟩ = some c → c = content) :
    Reads id start (Content.slice content (start % pageSize) count) m := by
  intro j b hb c hc
  have hlength := (List.getElem?_eq_some_iff.1 hb).1
  rw [Content.length_slice] at hlength
  obtain ⟨hpage, hmod⟩ := VirtAddr.pageDown_add (by omega : start % pageSize + j < pageSize)
  rw [hpage] at hc
  rw [hm c hc, hmod]
  simp only [Content.slice, List.getElem?_take, List.getElem?_drop, show j < count by omega, ↓reduceIte] at hb
  rw [Content.byteAt, ← Vector.getElem?_toList, hb]
  rfl

namespace Paging

variable {s : System}

/-- A page that is mapped is marked as accessed, and as dirty if it will be written. -/
theorem wp_mark_of_view (hs : s.WellFormed) {p : PageId} (hlive : s.view.live p.space) {e : PageTableEntry}
    (hentry : s.view.entries p = some e) (write : Bool) {Q : System → Prop} {E : Failure → System → Prop}
    (h : ∀ t, t.WellFormed → t.view = s.view.setEntry p
      (some { e with flags := { e.flags with accessed := true, dirty := e.flags.dirty || write } }) → Q t) :
    wp (markAccessed p.space p.va) s
      (fun _ t => if write = true then wp (markDirty p.space p.va) t (fun _ u => Q u) E else Q t) E := by
  refine wp_markAccessed_of_view hs hlive hentry fun t ht hview => ?_
  cases write with
  | false =>
    rw [Bool.or_false] at h
    exact h t ht hview
  | true =>
    have hentry' : t.view.entries p = some { e with flags := { e.flags with accessed := true } } := by
      rw [hview]
      exact Function.update_self ..
    refine wp_markDirty_of_view ht (by rw [hview]; exact hlive) hentry' fun u hu hview' => h u hu ?_
    rw [hview', hview, Bool.or_true]
    simp only [View.setEntry, Function.update_idem]

/-- A resident page is marked, and its bytes are used. -/
theorem wp_usePage (hs : s.WellFormed) (hv : s.view.Sound) {α : Type} {id : SpaceId} {va : VirtAddr} {page : PageEntry}
    {pa : PhysAddr} (hpage : s.view.pages ⟨id, va.pageDown⟩ = some page) (hframe : page.frame = some pa) (write : Bool)
    (f : PageContent → α × PageContent) {Q : α → System → Prop} {E : Failure → System → Prop}
    (h : ∀ e content t, t.WellFormed → s.view.entries ⟨id, va.pageDown⟩ = some e → s.view.frames pa = some content →
      t.view = (s.view.setEntry ⟨id, va.pageDown⟩
        (some { e with flags := { e.flags with accessed := true, dirty := e.flags.dirty || write } })).setFrame pa
        (some (f content).2) → Q (f content).1 t) : wp (usePage id va write f pa) s Q E := by
  obtain ⟨e, hentry, _⟩ := hv.entry_of_frame hpage hframe
  obtain ⟨content, hcontent⟩ := Option.isSome_iff_exists.1 (hv.isSome_frame_of_page hpage hframe)
  simp only [usePage, wp_bind, wp_ite]
  refine wp_mark_of_view (p := ⟨id, va.pageDown⟩) hs (hv.page hpage).1 hentry write fun u hu hview => ?_
  have hcontent' : u.view.frames pa = some content := by rw [hview]; exact hcontent
  have ho : u.pager.resident.get? pa = some (page.occupant ⟨id, va.pageDown⟩) := by
    change u.view.resident pa = _
    rw [hview]
    exact hv.resident_of_frame hpage hframe
  have hbytes : u.pager.pool.content? pa = some content := FramePool.content?_of_frame? hcontent'
  simp only [useFrame, wp_pager, wp_bind, wp_frame, ho, hbytes, wp_pure]
  exact wp_setFrame_of_view hu (by simp [hcontent']) _ fun t ht hviewt =>
    h e content t ht hentry hcontent (by rw [hviewt, hview])

/-- The deeds of an access to one page: it is loaded if need be, marked, and `bytes` are stored in it. -/
theorem touches_page {id : SpaceId} {va : VirtAddr} {loads : List Deed}
    (hloads : loads = [] ∨ ∃ fresh, loads = [.load ⟨id, va⟩ fresh]) (write : Bool) (start : Nat) (bytes : Bytes) :
    (∀ d ∈ loads ++ [.use ⟨id, va⟩ write 0 [], .use ⟨id, va⟩ write start bytes], d.IsOfTouch ⟨id, va⟩ write) ∧
      (bytes = [] ∨ write = true → Accesses id (fun p => write = true ∧ p = ⟨id, va⟩)
        (loads ++ [.use ⟨id, va⟩ write 0 [], .use ⟨id, va⟩ write start bytes])) ∧
      storesOf (loads ++ [.use ⟨id, va⟩ write 0 [], .use ⟨id, va⟩ write start bytes]) =
        if bytes = [] then [] else [⟨⟨id, va⟩, start, bytes⟩] := by
  refine ⟨fun d hd => ?_, fun h => ?_, ?_⟩
  · obtain rfl | ⟨fresh, rfl⟩ := hloads
    · simp only [List.nil_append, List.mem_cons, List.not_mem_nil, or_false] at hd
      obtain rfl | rfl := hd <;> exact .inr ⟨_, _, rfl⟩
    · simp only [List.singleton_append, List.mem_cons, List.not_mem_nil, or_false] at hd
      obtain rfl | rfl | rfl := hd
      · exact .inl ⟨fresh, rfl⟩
      · exact .inr ⟨_, _, rfl⟩
      · exact .inr ⟨_, _, rfl⟩
  · have hmark := Accesses.use (W := fun p => write = true ∧ p = ⟨id, va⟩) id va 0 (.inl rfl) fun hwrite => ⟨hwrite, rfl⟩
    exact (Accesses.ofLoads hloads).append (hmark.append (.use id va start h fun hwrite => ⟨hwrite, rfl⟩))
  · rw [storesOf_append, storesOf_loads hloads]
    by_cases hbytes : bytes = [] <;> simp [storesOf, Deed.store?, hbytes]

/-- A page is loaded, used and nothing else, if it can be. -/
theorem performs_withUserPage (hs : s.WellFormed) (hv : s.view.Sound) {α : Type} (id : SpaceId) (va : VirtAddr)
    (write : Bool) {f : PageContent → α × PageContent} {start : Nat} {bytes : Bytes}
    (hf : ∀ content, (f content).2 = Content.overlay content start bytes) :
    Performs (withUserPage id va write f) s fun r ds t =>
      match r with
      | .ok a => (∀ d ∈ ds, d.IsOfTouch ⟨id, va.pageDown⟩ write) ∧ (bytes = [] ∨ write = true →
            Accesses id (fun p => write = true ∧ p = ⟨id, va.pageDown⟩) ds) ∧
          storesOf ds = (if bytes = [] then [] else [⟨⟨id, va.pageDown⟩, start, bytes⟩]) ∧
          (bytes = [] → ∀ q, s.view.KeepsAt q t.view) ∧ ∃ content, a = (f content).1 ∧
          (∀ c, s.view.memory ⟨id, va.pageDown⟩ = some c → c = content) ∧
          t.view.Shows ⟨id, va.pageDown⟩ (Content.overlay content start bytes)
      | .error _ => ds = [] ∧ ∀ q, s.view.KeepsAt q t.view := by
  unfold withUserPage
  rw [performs_space_bind]
  cases hpage : (s.space id).page? va with
  | none => exact performs_fail hs ⟨rfl, fun q => .refl q _⟩
  | some page =>
    have hpage' : s.view.pages ⟨id, va.pageDown⟩ = some page := hpage
    unfold Performs
    by_cases hdenied : (write && !page.writable) = true
    · simp only [hdenied, ↓reduceIte, wp_bind, wp_fail]
      exact ⟨hs, [], .done, rfl, fun q => .refl q _⟩
    change wp (if (write && !page.writable) = true then _ else
      claimPage id va.pageDown page >>= usePage id va write f) s _ _
    rw [if_neg hdenied, wp_bind]
    refine (performs_claimPage (p := ⟨id, va.pageDown⟩) hs hv hpage').wp (fun pa loads t ht htrace hr => ?_)
      fun f ds t ht htrace hr => ⟨ht, ds, htrace, hr.1, fun q => htrace.keepsAt hv (by simp [hr.1])⟩
    obtain ⟨hloads, page', hpage'', hframe, _⟩ := hr
    have hv' := htrace.sound hv
    refine wp_usePage ht hv' hpage'' hframe write f fun e content x hx hentry hcontent hviewx => ?_
    have hkept (c : PageContent) (hc : s.view.memory ⟨id, va.pageDown⟩ = some c) : c = content :=
      View.Shows.eq_of_memory ⟨page', pa, hpage'', hframe, hcontent⟩ hv'
        ((htrace.keepsAt hv (leavesAlone_of_loads hloads _)).memory_eq_some hc)
    have hmark := View.Uses.mark hpage'' hframe hentry hcontent write
    have hput : View.Uses ⟨id, va.pageDown⟩ write start bytes (t.view.setEntry ⟨id, va.pageDown⟩
        (some { e with flags := { e.flags with accessed := true, dirty := e.flags.dirty || write } })) _ :=
      .put (v := t.view.setEntry _ _) hpage'' hframe (Function.update_self ..) hcontent rfl (by simp +contextual) start
        bytes
    rw [hf] at hviewx
    rw [← hviewx] at hput
    have htrace' := htrace.append (.deed (.use hmark) (.single (.use hput)))
    obtain ⟨htouches, haccesses, hstores⟩ := touches_page hloads write start bytes
    refine ⟨hx, _, htrace', htouches, haccesses, hstores, fun hbytes q => htrace'.keepsAt hv fun d hd => ?_, content,
      rfl, hkept,
      page', pa, ?_, hframe, ?_⟩
    · rcases List.mem_append.1 hd with hd | hd
      · exact leavesAlone_of_loads hloads q d hd
      · subst hbytes
        simp only [List.mem_cons, List.not_mem_nil, or_false] at hd
        obtain rfl | rfl := hd <;> exact fun _ => rfl
    · rw [hviewx]
      exact hpage''
    · rw [hviewx]
      exact Function.update_self ..

theorem performs_touch (hs : s.WellFormed) (hv : s.view.Sound) (id : SpaceId) (va : VirtAddr) (write : Bool)
    (value : Option UInt8) :
    Performs (touch id va write value) s fun r ds t => (∀ d ∈ ds, d.IsOfTouch ⟨id, va.pageDown⟩ write) ∧
      match r with
      | .ok b => storesOf ds = (value.map fun b => ⟨⟨id, va.pageDown⟩, va.offset, [b]⟩).toList ∧
          (∀ c, s.view.memory ⟨id, va.pageDown⟩ = some c → Content.byteAt c va.offset = b) ∧
          (value = none → ∀ c, t.view.memory ⟨id, va.pageDown⟩ = some c → Content.byteAt c va.offset = b)
      | .error _ => storesOf ds = [] := by
  unfold touch
  refine (@performs_withUserPage _ hs hv _ id va write _ va.offset value.toList ?_).wp
    (fun b ds t ht htrace hr => ⟨ht, ds, htrace, ?_⟩) fun f ds t ht htrace hr => ⟨ht, ds, htrace, ?_⟩
  · intro content
    cases value <;> simp
  · obtain ⟨htouches, _, hstores, _, content, rfl, hold, hshows⟩ := hr
    refine ⟨htouches, by rw [hstores]; cases value <;> rfl, fun c hc => by rw [hold c hc], ?_⟩
    rintro rfl c hc
    rw [Option.toList_none, Content.overlay_nil] at hshows
    rw [hshows.eq_of_memory (htrace.sound hv) hc]
  · obtain rfl : ds = [] := hr.1
    exact ⟨by simp, rfl⟩

theorem performs_userAddr_bind (hs : s.WellFormed) {α : Type} {va : VirtAddr} {i : Nat} {g : VirtAddr → Paging α}
    {R : Except Failure α → List Deed → System → Prop}
    (hok : VirtAddr.IsCanonical (va.toNat + i) → Performs (g ⟨va.toNat + i⟩) s R)
    (herror : ∀ e, R (.error (.error e)) [] s) : Performs (userAddr va i >>= g) s R := by
  unfold userAddr VirtAddr.add? VirtAddr.ofNat?
  by_cases h : VirtAddr.IsCanonical (va.toNat + i)
  · simp only [h, ↓reduceIte]
    exact hok h
  · simp only [h, ↓reduceIte]
    exact ⟨hs, [], .done, herror _⟩

/-- Reading in pieces never fails; it stops where a piece cannot be read. -/
theorem performs_readPieces (hs : s.WellFormed) (hv : s.view.Sound) (id : SpaceId) (va : VirtAddr)
    (fuel start count : Nat) (hstart : va.toNat ≤ start) (hcount : count ≤ fuel) :
    Performs (readPieces id va (Piece.cut fuel start count)) s fun r ds t =>
      Accesses id (fun _ => False) ds ∧ storesOf ds = [] ∧ (∀ q, s.view.KeepsAt q t.view) ∧ ∃ tr, r = .ok tr ∧
        Reads id start tr.bytes t.view.memory ∧ tr.bytes.length ≤ count ∧
        (tr.failure = none → tr.bytes.length = count) ∧
        ∀ j < tr.bytes.length, t.view.IsLoaded ⟨id, (⟨start + j⟩ : VirtAddr).pageDown⟩ := by
  induction fuel generalizing s start count with
  | zero =>
    obtain rfl : count = 0 := by omega
    exact performs_pure hs ⟨.nil, rfl, fun q => .refl q _, _, rfl, Reads.nil _ _ _, Nat.le_refl _, fun _ => rfl,
      fun j hj => absurd hj (Nat.not_lt_zero j)⟩
  | succ fuel ih =>
    by_cases hzero : count = 0
    · subst hzero
      exact performs_pure hs ⟨.nil, rfl, fun q => .refl q _, _, rfl, Reads.nil _ _ _, Nat.le_refl _, fun _ => rfl,
        fun j hj => absurd hj (Nat.not_lt_zero j)⟩
    rw [Piece.cut_succ hzero]
    set n := min (pageSize - start % pageSize) count with hn
    have hmod : start % pageSize < pageSize := Nat.mod_lt _ (by decide)
    have hpart : Performs (do
        let cur ← userAddr va (start - va.toNat)
        withUserPage id cur false fun content => (Content.slice content cur.offset n, content)) s fun r ds t =>
          Accesses id (fun _ => False) ds ∧ storesOf ds = [] ∧ (∀ q, s.view.KeepsAt q t.view) ∧ ∀ bytes, r = .ok bytes →
            bytes.length = n ∧ ∃ content, bytes = Content.slice content (start % pageSize) n ∧
              t.view.Shows ⟨id, (⟨start⟩ : VirtAddr).pageDown⟩ content := by
      refine performs_userAddr_bind hs (fun hcur => ?_) fun e => ⟨.nil, rfl, fun q => .refl q _, fun _ h => by cases h⟩
      rw [show va.toNat + (start - va.toNat) = start by omega]
      refine (@performs_withUserPage _ hs hv _ id ⟨start⟩ false _ 0 []
        fun content => (Content.overlay_nil ..).symm).mono fun r ds t hr => ?_
      cases r with
      | ok bytes =>
        obtain ⟨_, haccesses, hstores, hkeeps, content, rfl, _, hshows⟩ := hr
        rw [Content.overlay_nil] at hshows
        refine ⟨(haccesses (.inl rfl)).mono fun _ h => (by cases h.1), hstores, hkeeps rfl, fun bytes hbytes => ?_⟩
        obtain rfl := Except.ok.inj hbytes
        exact ⟨by simp only [Content.length_slice, VirtAddr.offset]; omega, content, rfl, hshows⟩
      | error f =>
        obtain rfl : ds = [] := hr.1
        exact ⟨.nil, rfl, hr.2, fun _ h => by cases h⟩
    unfold readPieces
    refine hpart.attempt.bind hv (fun r ds t ht hv' htrace hr => ?_) fun f ds t hr => hr.elim
    cases r with
    | error f =>
      obtain ⟨haccesses, hstores, hkeeps, _⟩ := hr
      exact performs_pure ht ⟨by simpa using haccesses, by simpa using hstores, hkeeps, _, rfl, Reads.nil _ _ _,
        by simp [Transfer.stopped], by simp [Transfer.stopped], by simp [Transfer.stopped]⟩
    | ok bytes =>
      obtain ⟨haccesses, hstores, hkeeps, hok⟩ := hr
      obtain ⟨hlength, content, rfl, hshows⟩ := hok _ rfl
      refine (ih ht hv' (start + n) (count - n) (by omega) (by omega)).bind hv' (fun tr es u hu hv'' htrace' hr' => ?_)
        fun f es u hr' => ?_
      · obtain ⟨haccesses', hstores', hkeeps', tr', htr, hreads, hle, hdone, hloaded⟩ := hr'
        obtain rfl := Except.ok.inj htr
        refine performs_pure hu ⟨?_, ?_, fun q => (hkeeps q).trans (hkeeps' q), _, rfl, ?_, ?_, fun hfailure => ?_,
          fun j hj => ?_⟩
        · simpa using haccesses.append haccesses'
        · simp [hstores, hstores']
        · refine Reads.append (reads_slice (by omega) fun c hc => hshows.eq_of_keepsAt hv' (hkeeps' _) hc) ?_
          rw [hlength]
          exact hreads
        · simp only [Transfer.after, List.length_append, hlength]
          omega
        · simp only [Transfer.after, List.length_append, hlength, hdone hfailure]
          omega
        · simp only [Transfer.after, List.length_append, hlength] at hj
          by_cases hfirst : j < n
          · rw [(VirtAddr.pageDown_add (by omega : start % pageSize + j < pageSize)).1]
            exact (hkeeps' _).isLoaded (hshows.isLoaded hv')
          · rw [show start + j = start + n + (j - n) by omega]
            exact hloaded (j - n) (by omega)
      · obtain ⟨_, _, _, tr, htr, _⟩ := hr'
        cases htr

theorem performs_copyFromUser (hs : s.WellFormed) (hv : s.view.Sound) (id : SpaceId) (va : VirtAddr) (count : Nat) :
    Performs (copyFromUser id va count) s fun r ds t =>
      Accesses id (fun _ => False) ds ∧ storesOf ds = [] ∧ (∀ q, s.view.KeepsAt q t.view) ∧ ∃ tr, r = .ok tr ∧
        Reads id va.toNat tr.bytes t.view.memory ∧ tr.bytes.length ≤ count ∧
        (tr.failure = none → tr.bytes.length = count) ∧
        ∀ j < tr.bytes.length, t.view.IsLoaded ⟨id, (⟨va.toNat + j⟩ : VirtAddr).pageDown⟩ :=
  performs_readPieces hs hv id va count va.toNat count (Nat.le_refl _) (Nat.le_refl _)

/-- A store in pieces that fails has stored the first ones of them. -/
theorem performs_forM_stores {α : Type} (l : List α) (hs : s.WellFormed) (hv : s.view.Sound) {id : SpaceId}
    (hlive : s.view.live id) {f : α → Paging Unit} {g : α → Store}
    (hf : ∀ p ∈ l, ∀ t : System, t.WellFormed → t.view.Sound → t.view.live id → Performs (f p) t fun r ds _ =>
      Accesses id (· = (g p).page) ds ∧ match r with
        | .ok _ => storesOf ds = [g p]
        | .error _ => storesOf ds = []) :
    Performs (l.forM f) s fun r ds _ =>
      Accesses id (fun q => ∃ st ∈ l.map g, st.page = q) ds ∧ match r with
        | .ok _ => storesOf ds = l.map g
        | .error _ => storesOf ds <+: l.map g := by
  induction l generalizing s with
  | nil => exact performs_pure hs ⟨.nil, rfl⟩
  | cons p l ih =>
    change Performs (f p >>= fun _ => l.forM f) s _
    have hfirst (q : PageId) (hq : q = (g p).page) : ∃ st ∈ (p :: l).map g, st.page = q :=
      ⟨g p, by simp, hq.symm⟩
    have hrest (q : PageId) (hq : ∃ st ∈ l.map g, st.page = q) : ∃ st ∈ (p :: l).map g, st.page = q :=
      hq.imp fun st hst => ⟨List.mem_cons_of_mem _ hst.1, hst.2⟩
    refine (hf p (List.mem_cons_self ..) s hs hv hlive).bind hv (fun _ ds t ht hv' htrace hr => ?_) fun f ds t hr => ?_
    · obtain ⟨haccesses, hstores⟩ := hr
      have hlive' : t.view.live id := htrace.live (fun d hd => (haccesses.deeds d hd).isOnPages) hlive
      refine (ih ht hv' hlive' fun q hq => hf q (List.mem_cons_of_mem _ hq)).mono fun r es u hr => ?_
      obtain ⟨haccesses', hstores'⟩ := hr
      refine ⟨(haccesses.mono hfirst).append (haccesses'.mono hrest), ?_⟩
      rw [storesOf_append, hstores, List.map_cons]
      cases r with
      | ok _ => exact congrArg (g p :: ·) hstores'
      | error _ => exact List.cons_prefix_cons.2 ⟨rfl, hstores'⟩
    · refine ⟨hr.1.mono hfirst, ?_⟩
      rw [hr.2]
      exact List.nil_prefix

theorem performs_copyToUser (hs : s.WellFormed) (hv : s.view.Sound) {id : SpaceId} (hlive : s.view.live id)
    (va : VirtAddr) (bytes : Bytes) :
    Performs (copyToUser id va bytes) s fun r ds _ =>
      Accesses id (fun q => ∃ st ∈ storesFrom id va bytes, st.page = q) ds ∧ match r with
        | .ok n => n = bytes.length ∧ storesOf ds = storesFrom id va bytes
        | .error _ => storesOf ds <+: storesFrom id va bytes := by
  unfold copyToUser
  refine (performs_forM_stores _ hs hv hlive fun p hp t ht hv' hlive' => ?_).bind hv
    (fun _ ds t ht hv' htrace hr => performs_pure ht (by simpa using ⟨hr.1, hr.2⟩)) fun f ds t hr => ⟨hr.1, hr.2⟩
  obtain ⟨hlow, hhigh, hpos, hfit⟩ := Piece.of_mem_run hp
  refine performs_userAddr_bind ht (fun hcur => ?_) fun e => ⟨.nil, rfl⟩
  rw [show va.toNat + (p.start - va.toNat) = p.start by omega]
  refine (@performs_withUserPage _ ht hv' _ id ⟨p.start⟩ true _ p.offset (p.part va.toNat bytes)
    fun content => rfl).mono
    fun r ds u hr => ?_
  cases r with
  | ok _ =>
    obtain ⟨_, haccesses, hstores, _⟩ := hr
    rw [if_neg (Piece.part_ne_nil hp)] at hstores
    exact ⟨(haccesses (.inr rfl)).mono fun _ h => h.2, hstores⟩
  | error f =>
    obtain rfl : ds = [] := hr.1
    exact ⟨.nil, rfl⟩

end Paging

end DemandPaging
