import DemandPaging.Proofs.BytewiseCopy

/-!
How far a copy comes, and what it changes. It moves its bytes one after another, each to its place, and if it stops
before its end, it stops at the start of a page.
-/

namespace DemandPaging

open Paging

namespace UserCopy

/-- The byte with number `i` that is to be stored, if one is. -/
def byte? : UserCopy → Nat → Option UInt8
  | read _, _ => none
  | write bytes, i => bytes[i]?

/-- Accesses the byte with number `i` alone. -/
def access (id : SpaceId) (va : VirtAddr) (c : UserCopy) (i : Nat) : Paging UInt8 :=
  touchAt id va i c.isWrite (c.byte? i)

/-- The place of the page that has the byte with number `i`. -/
def place (id : SpaceId) (va : VirtAddr) (i : Nat) : PageId := ⟨id, (⟨va.toNat + i⟩ : VirtAddr).pageDown⟩

/-- What the bytes of this page become when the byte with number `i` is accessed. -/
def lay (va : VirtAddr) (c : UserCopy) (i : Nat) (content : PageContent) : PageContent :=
  match c.byte? i with
  | some b => Content.overlay content ((va.toNat + i) % pageSize) [b]
  | none => content

/-- What the first `n` bytes of the copy put at `k` in the page at `p`. -/
def put? (id : SpaceId) (va : VirtAddr) (c : UserCopy) (n : Nat) (p : PageId) (k : Nat) : Option UInt8 :=
  if p.space = id ∧ va.toNat ≤ p.va.toNat + k ∧ p.va.toNat + k < va.toNat + n then
    c.byte? (p.va.toNat + k - va.toNat)
  else none

/-- The page at `p` had `content`, and has `content'` since the first `n` bytes of the copy were moved. -/
def HasPut (id : SpaceId) (va : VirtAddr) (c : UserCopy) (n : Nat) (p : PageId) (content content' : PageContent) :
    Prop :=
  ∀ k < pageSize, Content.byteAt content' k = (c.put? id va n p k).getD (Content.byteAt content k)

/-- The access to the byte with number `m` leads from `u` to `w`. It returns the byte that it finds there, puts its own
in its place, and takes other pages at most out of their frames. -/
structure Touches (id : SpaceId) (va : VirtAddr) (c : UserCopy) (m : Nat) (u w : System) : Prop where
  access : ∃ content, u.view.Finds (place id va m) content ∧
    c.access id va m u = .ok (Content.byteAt content ((va.toNat + m) % pageSize)) w ∧
    w.view.Shows (place id va m) (c.lay va m content)
  shown : ∀ q ≠ place id va m, u.view.KeepsShown q w.view
  memory : ∀ {p content}, u.view.memory p = some content →
    w.view.memory p = some (if p = place id va m then c.lay va m content else content)

/-- The first `n` bytes of the copy are moved one after another, which leads from `s` to `t`. -/
structure Moves (id : SpaceId) (va : VirtAddr) (c : UserCopy) (s : System) (n : Nat) (t : System) : Prop where
  run : (c.take n).run id va s = .ok n t
  each : ∀ m < n, ∃ u w, (c.take m).run id va s = .ok m u ∧ c.Touches id va m u w ∧
    (c.take (m + 1)).run id va s = .ok (m + 1) w
  memory : ∀ {p content}, s.view.memory p = some content →
    ∃ content', t.view.memory p = some content' ∧ c.HasPut id va n p content content'
  /-- So it is for a page that is in a frame all along, too. -/
  shown : ∀ {p content content'}, s.view.Shows p content → t.view.Shows p content' →
    (∀ m u, m ≤ n → (c.take m).run id va s = .ok m u → ∃ x, u.view.Shows p x) → c.HasPut id va n p content content'

/-- The copy stops in `u` with `f`, since after `n` bytes, until `t`, it comes to a page that fails. -/
structure Stops (id : SpaceId) (va : VirtAddr) (c : UserCopy) (n : Nat) (t : System) (f : Failure) (u : System) :
    Prop where
  lt : n < c.count
  start : n = 0 ∨ (va.toNat + n) % pageSize = 0
  access : c.access id va n t = .error f u
  memory : u.view.memory = t.view.memory
  shown : ∀ p, t.view.KeepsShown p u.view

variable {s t u : System} {id : SpaceId} {va : VirtAddr} {c : UserCopy} {n m : Nat} {f : Failure}

/-- A loop ends with the first round that fails. -/
theorem forM_append_cons_of_error {β : Type} {g : β → Paging Unit} {bs cs : List β} {b : β}
    (hbs : bs.forM g s = .ok () t) (hb : g b t = .error f u) : (bs ++ b :: cs).forM g s = .error f u := by
  induction bs generalizing s with
  | nil =>
    cases hbs
    exact bind_eq_of_eq_error hb _
  | cons x bs ih =>
    obtain ⟨_, v, hx, hrest⟩ := exists_of_bind_eq_ok (x := g x) (f := fun _ => bs.forM g) hbs
    exact (bind_eq_of_eq_ok hx _).trans (ih hrest)

/-- A piece fails as its first byte does. -/
theorem access_of_step (ht : t.WellFormed) (hv : t.view.Sound) (hstep : c.step id va ⟨va.toNat + n, m⟩ t = .error f u) :
    c.access id va n t = .error f u ∧ Upkept t.view u.view := by
  have hindex : va.toNat + n - va.toNat = n := Nat.add_sub_cancel_left ..
  unfold step at hstep
  unfold access
  rw [hindex] at hstep
  by_cases hcanonical : VirtAddr.IsCanonical (va.toNat + n)
  · rw [userAddr_of_canonical hcanonical, pure_bind] at hstep
    rw [touchAt_of_canonical hcanonical]
    obtain ⟨g, w, hupkept, hfails⟩ | ⟨w, pa, content, hopened, -, -, hsame⟩ :=
      exists_access ht hv id ⟨va.toNat + n⟩ c.isWrite
    · cases c with
      | read count =>
        cases (bind_eq_of_eq_error (hfails _) _).symm.trans hstep
        exact ⟨hfails _, hupkept⟩
      | write bytes =>
        cases (hfails _).symm.trans hstep
        exact ⟨hfails _, hupkept⟩
    · cases c with
      | read count => cases (bind_eq_of_eq_ok ((hsame _).trans (hopened.withUserPage _)) _).symm.trans hstep
      | write bytes => cases ((hsame _).trans (hopened.withUserPage _)).symm.trans hstep
  · rw [userAddr_of_not_canonical hcanonical] at hstep
    rw [touchAt_of_not_canonical hcanonical]
    cases hstep
    exact ⟨rfl, .refl⟩

/-- A copy reaches its end, or fails at the start of a page. -/
theorem run_eq_or_fails (hs : s.WellFormed) (hv : s.view.Sound) (id : SpaceId) (va : VirtAddr) (c : UserCopy) :
    (∃ t, c.run id va s = .ok c.count t) ∨ ∃ n t f u, n < c.count ∧ (n = 0 ∨ (va.toNat + n) % pageSize = 0) ∧
      (c.take n).run id va s = .ok n t ∧ c.access id va n t = .error f u ∧ Upkept t.view u.view ∧
      c.run id va s = .error f u := by
  have hround (p : Piece) (hp : p ∈ Piece.run va.toNat c.count) (t : System) (ht : t.WellFormed ∧ t.view.Sound) :
      wp (c.step id va p) t (fun _ u => (u.WellFormed ∧ u.view.Sound) ∧ True)
        fun o _ => (t.WellFormed ∧ t.view.Sound) ∧ ∃ u, c.step id va p t = .error o u := by
    have hstep : wp (c.step id va p) t _ _ := wp_step ht.1 ht.2 (Piece.of_mem_run hp).1
    unfold wp at hstep ⊢
    split
    next hresult =>
      rw [hresult] at hstep
      exact ⟨⟨hstep.1, hstep.2.1⟩, trivial⟩
    next hresult => exact ⟨ht, _, hresult⟩
  have hends := (wp_forM_step hs hv id va c).and (wp_forM_first _ hround ⟨hs, hv⟩)
  unfold wp at hends
  split at hends
  next t _ => exact .inl ⟨t, hends.1⟩
  next f u hresult =>
    obtain ⟨hrun, ps, p, qs, t, hsplit, hps, ⟨ht, hv'⟩, w, hstep⟩ := hends
    obtain ⟨hstart, hlt, hbefore⟩ := run_take_of_split hs hv hsplit hps
    obtain rfl : u = w := by
      rw [hsplit, forM_append_cons_of_error hps hstep] at hresult
      cases hresult
      rfl
    have hpiece : p = ⟨va.toNat + (p.start - va.toNat), p.length⟩ := by rw [hstart]
    rw [hpiece] at hstep
    obtain ⟨haccess, hupkept⟩ := access_of_step ht hv' hstep
    refine .inr ⟨p.start - va.toNat, t, f, u, hlt, ?_, hbefore, haccess, hupkept, hrun⟩
    rw [hstart]
    exact (Piece.start_eq_or_offset_eq_zero hsplit).imp_left fun hfirst => by omega

theorem run_read_iff (hs : s.WellFormed) (hv : s.view.Sound) {count : Nat} :
    (read count).run id va s = .ok count t ↔ ∃ bytes, loadEach id va 0 count s = .ok ⟨bytes, none⟩ t := by
  have hall := copyFromUser_eq_loadEach hs hv id va count
  obtain ⟨⟨bytes, failure⟩, u, hload⟩ := exists_loadEach s id va 0 count
  rw [hload] at hall ⊢
  have hlength := (performs_copyFromUser hs hv id va count).of_ok hall
  obtain ⟨-, -, -, -, -, -, tr, htr, -, -, hlength, -⟩ := hlength
  obtain rfl := Except.ok.inj htr
  cases failure with
  | none =>
    have hrun : (read count).run id va s = .ok count u := by
      refine (bind_eq_of_eq_ok hall _).trans ?_
      exact congrArg (EStateM.Result.ok · u) (hlength rfl)
    rw [hrun]
    constructor
    · rintro ⟨⟩
      exact ⟨bytes, rfl⟩
    · rintro ⟨bytes', ⟨⟩⟩
      rfl
  | some f =>
    have hrun : (read count).run id va s = .error f u := bind_eq_of_eq_ok hall _
    rw [hrun]
    constructor
    · rintro ⟨⟩
    · rintro ⟨bytes', ⟨⟩⟩

/-- The copy of one byte more accesses that byte as well. -/
theorem exists_access_of_run (hs : s.WellFormed) (hv : s.view.Sound) (hm : m < c.count)
    (hrun : (c.take (m + 1)).run id va s = .ok (m + 1) t) :
    ∃ u b, (c.take m).run id va s = .ok m u ∧ c.access id va m u = .ok b t := by
  cases c with
  | read count =>
    have hmin : min (m + 1) count = m + 1 := Nat.min_eq_left hm
    have hmin' : min m count = m := Nat.min_eq_left (Nat.le_of_lt hm)
    rw [take, hmin, run_read_iff hs hv] at hrun
    simp only [take, hmin', run_read_iff hs hv]
    obtain ⟨bytes, hload⟩ := hrun
    -- Loading is taken apart in front of the last byte, which a failure before would not have reached.
    obtain ⟨⟨bytes', failure⟩, u, hfirst⟩ := exists_loadEach s id va 0 m
    obtain ⟨⟨last, failure'⟩, v, hlast⟩ := exists_loadEach u id va (0 + m) 1
    rw [loadEach_add hfirst hlast] at hload
    cases failure with
    | some f => cases hload
    | none =>
      cases hload
      rw [Nat.zero_add] at hlast
      cases hbyte : touchAt id va m false none u with
      | error f w => cases (loadEach_succ_of_error hbyte).symm.trans hlast
      | ok b w =>
        cases (loadEach_succ_of_ok hbyte rfl).symm.trans hlast
        exact ⟨u, b, ⟨bytes', hfirst⟩, hbyte⟩
  | write bytes =>
    have hlength {k : Nat} (hk : k ≤ bytes.length) : (bytes.take k).length = k := List.length_take_of_le hk
    have htake : bytes.take (m + 1) = bytes.take m ++ [bytes[m]] := List.take_succ_eq_append_getElem hm
    have hstore : copyToUser id va (bytes.take (m + 1)) s = .ok (m + 1) t := hrun
    rw [copyToUser_eq_storeEach hs hv, htake, storeEach_append] at hstore
    obtain ⟨_, w, hall, hend⟩ := exists_of_bind_eq_ok hstore
    obtain ⟨_, u, hfirst, hlast⟩ := exists_of_bind_eq_ok hall
    obtain rfl : w = t := (EStateM.Result.ok.inj hend).2
    rw [hlength (Nat.le_of_lt hm), Nat.zero_add] at hlast
    obtain ⟨b, v, htouch, hrest⟩ := exists_of_bind_eq_ok hlast
    obtain rfl : v = w := (EStateM.Result.ok.inj hrest).2
    refine ⟨u, b, ?_, ?_⟩
    · change copyToUser id va (bytes.take m) s = _
      rw [copyToUser_eq_storeEach hs hv, bind_eq_of_eq_ok hfirst, hlength (Nat.le_of_lt hm)]
      rfl
    · have hbyte : (UserCopy.write bytes).byte? m = some bytes[m] := List.getElem?_eq_getElem hm
      rw [access, hbyte]
      exact htouch

/-- The access to a byte finds its page, puts the byte in its place, and takes other pages at most out of their
frames. -/
theorem touches_of_access (hs : s.WellFormed) (hv : s.view.Sound) {b : UInt8} (h : c.access id va m s = .ok b t) :
    t.WellFormed ∧ t.view.Sound ∧ c.Touches id va m s t := by
  by_cases hcanonical : VirtAddr.IsCanonical (va.toNat + m)
  · have htouch := h
    rw [access, touchAt_of_canonical hcanonical] at htouch
    obtain ⟨content, hcontent, rfl, hshows, hkept⟩ :=
      (wp_withUserPage_finds hs hv id ⟨va.toNat + m⟩ c.isWrite _).of_ok htouch
    obtain ⟨ht, ds, htrace, hds, hstores, -⟩ :=
      (performs_touch hs hv id ⟨va.toNat + m⟩ c.isWrite (c.byte? m)).of_ok htouch
    refine ⟨ht, htrace.sound hv, ⟨content, hcontent, h, hshows⟩, hkept, fun {p content'} hp => ?_⟩
    have hremoved : .remove p ∉ ds := fun hmem => by
      obtain ⟨fresh, hd⟩ | ⟨start, bytes, hd⟩ := hds _ hmem <;> cases hd
    rw [htrace.memory_eq_stored hv hp hremoved, hstores]
    cases hbyte : c.byte? m with
    | none => simp [lay, hbyte]
    | some b =>
      rw [Option.map_some, Option.toList_some, stored_cons, stored_nil, Store.lay, lay, hbyte]
      change some (if place id va m = p then Content.overlay content' ((va.toNat + m) % pageSize) [b] else content') = _
      rw [if_congr (eq_comm (a := place id va m)) rfl rfl]
  · rw [access, touchAt_of_not_canonical hcanonical] at h
    cases h

/-! ### What was put where -/

variable {p : PageId} {content content' : PageContent}

theorem hasPut_zero : c.HasPut id va 0 p content content := fun k _ => by
  rw [put?, if_neg (by omega), Option.getD_none]

theorem byteAt_lay {k : Nat} (hk : k < pageSize) : Content.byteAt (c.lay va m content) k =
    (if k = (va.toNat + m) % pageSize then c.byte? m else none).getD (Content.byteAt content k) := by
  have hget (v : PageContent) : Content.byteAt v k = v[k] := by
    rw [Content.byteAt, Vector.getElem?_eq_getElem hk]
    rfl
  have hmod : (va.toNat + m) % pageSize < pageSize := Nat.mod_lt _ (by decide)
  rw [hget, hget]
  cases hbyte : c.byte? m with
  | none => simp [lay, hbyte]
  | some b =>
    simp only [lay, hbyte]
    rw [Content.getElem_overlay _ _ _ (Nat.le_of_lt hmod)]
    split
    next hle =>
      split
      next heq => simp [heq]
      next hne => rw [List.getElem?_eq_none (by simp only [List.length_cons, List.length_nil]; omega)]
    next hlt => rw [if_neg (by omega)]; rfl

/-- A byte of a page is the one with number `m` if it is in this page at its place. -/
theorem eq_place_iff (id : SpaceId) (va : VirtAddr) (m : Nat) (hp : p.va.offset = 0) {k : Nat} (hk : k < pageSize) :
    p.space = id ∧ p.va.toNat + k = va.toNat + m ↔ p = place id va m ∧ k = (va.toNat + m) % pageSize := by
  obtain ⟨space, ⟨start⟩⟩ := p
  simp only [place, PageId.mk.injEq, VirtAddr.pageDown, VirtAddr.mk.injEq, VirtAddr.offset] at hp ⊢
  have hsize : pageSize = 4096 := rfl
  rw [hsize] at hp hk ⊢
  constructor
  · rintro ⟨rfl, h⟩
    exact ⟨⟨rfl, by omega⟩, by omega⟩
  · rintro ⟨⟨rfl, h⟩, h'⟩
    exact ⟨rfl, by omega⟩

theorem HasPut.succ (h : c.HasPut id va n p content content') (hp : p.va.offset = 0) :
    c.HasPut id va (n + 1) p content (if p = place id va n then c.lay va n content' else content') := by
  intro k hk
  have hlast := eq_place_iff id va n hp hk
  by_cases hhere : p.space = id ∧ p.va.toNat + k = va.toNat + n
  · obtain ⟨hplace, hoffset⟩ := hlast.1 hhere
    obtain ⟨hspace, haddr⟩ := hhere
    have hindex : p.va.toNat + k - va.toNat = n := by omega
    have hbefore : ¬ (p.space = id ∧ va.toNat ≤ p.va.toNat + k ∧ p.va.toNat + k < va.toNat + n) := fun hin =>
      Nat.ne_of_lt hin.2.2 haddr
    rw [if_pos hplace, byteAt_lay hk, if_pos hoffset, h k hk, put?, put?, if_neg hbefore,
      if_pos ⟨hspace, by omega, by omega⟩, hindex, Option.getD_none]
  · have hsame : c.put? id va (n + 1) p k = c.put? id va n p k := by
      refine if_congr ⟨fun hin => ⟨hin.1, hin.2.1, ?_⟩, fun hin => ⟨hin.1, hin.2.1, by omega⟩⟩ rfl rfl
      have hne : p.va.toNat + k ≠ va.toNat + n := fun haddr => hhere ⟨hin.1, haddr⟩
      omega
    rw [hsame, ← h k hk]
    split
    next hplace => rw [byteAt_lay hk, if_neg fun hoffset => hhere (hlast.2 ⟨hplace, hoffset⟩), Option.getD_none]
    next => rfl

/-! ### Byte after byte -/

theorem take_count (c : UserCopy) : c.take c.count = c := by
  cases c with
  | read count => exact congrArg read (Nat.min_self count)
  | write bytes => exact congrArg write (List.take_length ..)

theorem run_take_zero : (c.take 0).run id va s = .ok 0 s := by
  cases c with
  | read count =>
    rw [take, Nat.zero_min]
    rfl
  | write bytes => rfl

/-- A page has the bytes that were put there, if it does before the last one is. -/
theorem Touches.hasPut {content₁ : PageContent} (h : c.Touches id va n t u) (ht : t.view.Sound)
    (hput : c.HasPut id va n p content content₁) (hshows : t.view.Shows p content₁)
    (hshows' : u.view.Shows p content') : c.HasPut id va (n + 1) p content content' := by
  have ⟨page, _, hpage, _⟩ := hshows
  have hnext := hput.succ (ht.page hpage).2.aligned
  by_cases hplace : p = place id va n
  · obtain ⟨content₂, hfinds, -, hlaid⟩ := h.access
    rw [← hplace] at hfinds hlaid
    obtain rfl := hfinds.eq_of_shows hshows
    rw [if_pos hplace, ← hlaid.unique hshows'] at hnext
    exact hnext
  · rw [if_neg hplace, ← h.shown p hplace _ _ hshows hshows'] at hnext
    exact hnext

/-- A copy that has moved its first bytes has accessed each of them. -/
theorem moves_of_run (hs : s.WellFormed) (hv : s.view.Sound) (hn : n ≤ c.count)
    (hrun : (c.take n).run id va s = .ok n t) : t.WellFormed ∧ t.view.Sound ∧ c.Moves id va s n t := by
  induction n generalizing t with
  | zero =>
    obtain rfl : s = t := (EStateM.Result.ok.inj (run_take_zero.symm.trans hrun)).2
    refine ⟨hs, hv, hrun, fun m hm => absurd hm (Nat.not_lt_zero m), fun hp => ⟨_, hp, hasPut_zero⟩,
      fun hshows hshows' _ => ?_⟩
    obtain rfl := hshows.unique hshows'
    exact hasPut_zero
  | succ n ih =>
    obtain ⟨u, b, hu, haccess⟩ := exists_access_of_run hs hv hn hrun
    obtain ⟨hu', hv', hmoves⟩ := ih (Nat.le_of_succ_le hn) hu
    obtain ⟨ht, hv'', htouches⟩ := touches_of_access hu' hv' haccess
    refine ⟨ht, hv'', hrun, fun m hm => ?_, fun {p content} hp => ?_,
      fun {p content content'} hshows hshows' hall => ?_⟩
    · obtain hm | rfl := Nat.lt_succ_iff_lt_or_eq.1 hm
      · exact hmoves.each m hm
      · exact ⟨u, t, hu, htouches, hrun⟩
    · obtain ⟨content₁, hp₁, hput⟩ := hmoves.memory hp
      obtain ⟨page, hpage, -⟩ := Option.bind_eq_some_iff.1 hp₁
      exact ⟨_, htouches.memory hp₁, hput.succ (hv'.page hpage).2.aligned⟩
    · -- The page is in a frame before the last byte, too, and has there what was put in it until then.
      obtain ⟨content₁, hshows₁⟩ := hall n u (Nat.le_succ n) hu
      have hput := hmoves.shown hshows hshows₁ fun m v hm => hall m v (Nat.le_succ_of_le hm)
      exact htouches.hasPut hv' hput hshows₁ hshows'

/-- A copy moves its bytes one after another, to its end or until it stops at a page. -/
theorem exists_moves (hs : s.WellFormed) (hv : s.view.Sound) (id : SpaceId) (va : VirtAddr) (c : UserCopy) :
    ∃ n t, c.Moves id va s n t ∧ (n = c.count ∧ c.run id va s = .ok n t ∨
      ∃ f u, c.run id va s = .error f u ∧ c.Stops id va n t f u) := by
  obtain ⟨t, hrun⟩ | ⟨n, t, f, u, hn, hstart, hbefore, haccess, hupkept, hrun⟩ := run_eq_or_fails hs hv id va c
  · have hall : (c.take c.count).run id va s = .ok c.count t := c.take_count.symm ▸ hrun
    exact ⟨_, t, (moves_of_run hs hv (Nat.le_refl _) hall).2.2, .inl ⟨rfl, hrun⟩⟩
  · obtain ⟨-, hv', hmoves⟩ := moves_of_run hs hv (Nat.le_of_lt hn) hbefore
    exact ⟨n, t, hmoves, .inr ⟨f, u, hrun, hn, hstart, haccess, hupkept.memory_eq hv',
      View.keepsShown_of_upkept hv' hupkept⟩⟩

/-- What is read of user memory before a page fails is returned with the failure. -/
theorem copyFromUser_of_stops {count : Nat} (hs : s.WellFormed) (hv : s.view.Sound) {data : Bytes}
    (hbefore : copyFromUser id va n s = .ok ⟨data, none⟩ t) (h : (read count).Stops id va n t f u) :
    copyFromUser id va count s = .ok ⟨data, some f⟩ u := by
  obtain ⟨k, hk⟩ := Nat.exists_eq_add_of_lt h.lt
  have hcount : count = n + (k + 1) := hk
  have hfails : loadEach id va (0 + n) (k + 1) t = .ok (.stopped f) u := by
    rw [Nat.zero_add]
    exact loadEach_succ_of_error h.access
  rw [copyFromUser_eq_loadEach hs hv] at hbefore ⊢
  rw [hcount, loadEach_add hbefore hfails]
  exact congrArg (fun bytes => EStateM.Result.ok (Transfer.mk bytes (some f)) u) (List.append_nil data)

end UserCopy

namespace System

variable {s : System}

/-- Copies are what accesses to the single bytes would be, one after another in the order of their addresses. A copy
moves all its bytes, or stops with the failure of the first page that fails, when all bytes before this page and no
others were moved. Nothing but these bytes is put anywhere. -/
theorem copies_byte_by_byte (hs : s.WellFormed) (hv : s.view.Sound) (id : SpaceId) (va : VirtAddr) :
    (∀ bytes, copyToUser id va bytes s = (do
      storeEach id va 0 bytes
      return bytes.length) s) ∧
    (∀ count, copyFromUser id va count s = loadEach id va 0 count s) ∧
    (∀ bytes, ∃ n t, (UserCopy.write bytes).Moves id va s n t ∧
      (n = bytes.length ∧ copyToUser id va bytes s = .ok n t ∨
        ∃ f u, copyToUser id va bytes s = .error f u ∧ (UserCopy.write bytes).Stops id va n t f u)) ∧
    ∀ count, ∃ n t data, (UserCopy.read count).Moves id va s n t ∧ data.length = n ∧
      copyFromUser id va n s = .ok ⟨data, none⟩ t ∧
      (n = count ∨ ∃ f u, copyFromUser id va count s = .ok ⟨data, some f⟩ u ∧
        (UserCopy.read count).Stops id va n t f u) := by
  refine ⟨copyToUser_eq_storeEach hs hv id va, copyFromUser_eq_loadEach hs hv id va,
    fun bytes => UserCopy.exists_moves hs hv id va (.write bytes), fun count => ?_⟩
  obtain ⟨n, t, hmoves, hends⟩ := UserCopy.exists_moves hs hv id va (.read count)
  have hn : n ≤ count := by
    obtain ⟨rfl, -⟩ | ⟨f, u, -, hstops⟩ := hends
    · exact Nat.le_refl _
    · exact Nat.le_of_lt hstops.lt
  have hrun := hmoves.run
  rw [UserCopy.take, Nat.min_eq_left hn] at hrun
  obtain ⟨data, hload⟩ := (UserCopy.run_read_iff hs hv).1 hrun
  have hbefore := (copyFromUser_eq_loadEach hs hv id va n).trans hload
  have hall : (UserCopy.read n).run id va s = .ok data.length t := bind_eq_of_eq_ok hbefore _
  have hlength : data.length = n := (EStateM.Result.ok.inj (hall.symm.trans hrun)).1
  refine ⟨n, t, data, hmoves, hlength, hbefore, hends.imp (fun hall => hall.1) ?_⟩
  rintro ⟨f, u, -, hstops⟩
  exact ⟨f, u, UserCopy.copyFromUser_of_stops hs hv hbefore hstops, hstops⟩

/-- A private page, and behind it a page over a file of three bytes, which has a byte far behind them. They need the
same frame. -/
def straddled : System := (small { data := [1, 2, 3] }).after [.create, .addPage 0 .anon ⟨0x1000⟩ true .zero,
  .mmap 0 ⟨0x2000⟩ 3 true 0 0, .touch 0 ⟨0x2064⟩ true (some 5)]

theorem reachable_straddled : straddled.Reachable :=
  (Reachable.initial (initial_small { data := [1, 2, 3] })).after (by decide +kernel)

/-- The second byte drives the page out that the first one was stored in, and a byte for which there is no page stops
the copy. -/
theorem exists_bytewise_copy : ∃ (s t t' u : System) (f : Failure), s.Reachable ∧
    (UserCopy.write [1, 2]).Moves 0 ⟨0x1fff⟩ s 2 t ∧ copyToUser 0 ⟨0x1fff⟩ [1, 2] s = .ok 2 t ∧
    (t.page? ⟨0, ⟨0x1000⟩⟩).map PageEntry.kind = some (.anon (some ⟨0⟩)) ∧
    (UserCopy.write [1, 2]).Moves 0 ⟨0x2fff⟩ s 1 t' ∧ (UserCopy.write [1, 2]).Stops 0 ⟨0x2fff⟩ 1 t' f u := by
  have hs := reachable_straddled
  obtain ⟨t₀, hall⟩ : ∃ t, copyToUser 0 ⟨0x1fff⟩ [1, 2] straddled = .ok 2 t := exists_of_result (by decide +kernel)
  obtain ⟨u₀, hstop⟩ : ∃ u, copyToUser 0 ⟨0x2fff⟩ [1, 2] straddled = .error (.error .badAddress) u :=
    exists_of_errno (by decide +kernel)
  obtain ⟨w, hfirst⟩ : ∃ w, UserCopy.access 0 ⟨0x2fff⟩ (.write [1, 2]) 0 straddled = .ok 0 w :=
    exists_of_result (by decide +kernel)
  obtain ⟨n, t, hmoves, ⟨rfl, hrun⟩ | ⟨f, u, hrun, -⟩⟩ :=
    (copies_byte_by_byte hs.wellFormed hs.sound 0 ⟨0x1fff⟩).2.2.1 [1, 2]
  · obtain ⟨n, t', hmoves', ⟨-, hrun'⟩ | ⟨f, u, hrun', hstops⟩⟩ :=
      (copies_byte_by_byte hs.wellFormed hs.sound 0 ⟨0x2fff⟩).2.2.1 [1, 2]
    · cases hstop.symm.trans hrun'
    · have hkind : ((outcomeOf (copyToUser 0 ⟨0x1fff⟩ [1, 2]) straddled).page? ⟨0, ⟨0x1000⟩⟩).map PageEntry.kind =
          some (.anon (some ⟨0⟩)) := by decide +kernel
      rw [outcomeOf, hrun] at hkind
      have hlt : n < 2 := hstops.lt
      have hne : n ≠ 0 := by
        rintro rfl
        obtain rfl : straddled = t' := (EStateM.Result.ok.inj (UserCopy.run_take_zero.symm.trans hmoves'.run)).2
        cases hfirst.symm.trans hstops.access
      obtain rfl : n = 1 := by omega
      exact ⟨straddled, t, t', u, f, hs, hmoves, hrun, hkind, hmoves', hstops⟩
  · cases hall.symm.trans hrun

theorem exists_shows {p : PageId} (pa : PhysAddr) {k : Nat} {b : UInt8}
    (hframe : (s.page? p).map PageEntry.frame = some (some pa))
    (hbyte : (s.view.frames pa).map (Content.byteAt · k) = some b) :
    ∃ content, s.view.Shows p content ∧ Content.byteAt content k = b := by
  obtain ⟨page, hpage, hframe⟩ := Option.map_eq_some_iff.1 hframe
  obtain ⟨content, hcontent, hb⟩ := Option.map_eq_some_iff.1 hbyte
  exact ⟨content, ⟨page, pa, hpage, hframe, hcontent⟩, hb⟩

/-- A page over a file that makes way during a copy into it comes back without the bytes that its file cannot hold. So a
byte changes that the copy does not reach. -/
theorem exists_copy_that_loses_a_byte : ∃ (s t : System) (content content' : PageContent), s.Reachable ∧
    copyToUser 0 ⟨0x1fff⟩ [1, 2] s = .ok 2 t ∧ s.view.Shows ⟨0, ⟨0x2000⟩⟩ content ∧
    t.view.Shows ⟨0, ⟨0x2000⟩⟩ content' ∧ 0x1fff + 2 ≤ 0x2000 + 100 ∧ Content.byteAt content 100 = 5 ∧
    Content.byteAt content' 100 = 0 := by
  obtain ⟨t, hrun⟩ : ∃ t, copyToUser 0 ⟨0x1fff⟩ [1, 2] straddled = .ok 2 t := exists_of_result (by decide +kernel)
  obtain ⟨content, hshows, hbyte⟩ : ∃ content, straddled.view.Shows ⟨0, ⟨0x2000⟩⟩ content ∧
      Content.byteAt content 100 = 5 := exists_shows ⟨0x1000000⟩ (by decide +kernel) (by decide +kernel)
  obtain ⟨content', hshows', hbyte'⟩ :
      ∃ content, (outcomeOf (copyToUser 0 ⟨0x1fff⟩ [1, 2]) straddled).view.Shows ⟨0, ⟨0x2000⟩⟩ content ∧
      Content.byteAt content 100 = 0 := exists_shows ⟨0x1000000⟩ (by decide +kernel) (by decide +kernel)
  rw [outcomeOf, hrun] at hshows'
  exact ⟨straddled, t, content, content', reachable_straddled, hrun, hshows, hshows', by decide, hbyte, hbyte'⟩

end System

end DemandPaging
