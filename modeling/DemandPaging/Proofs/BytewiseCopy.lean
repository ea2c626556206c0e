import DemandPaging.Proofs.CallFailures
import DemandPaging.Proofs.PageAccess
import DemandPaging.Proofs.RangeCheck

/-!
Copies out of user memory and into it, byte by byte. A copy moves whole parts of pages at once; it ends as if each byte
had been accessed on its own.
-/

namespace DemandPaging

open Paging

namespace Content

variable {n : Nat} {v : Vector UInt8 n} {start count : Nat}

theorem overlay_append (bs bs' : Bytes) (hfit : start + bs.length + bs'.length ≤ n) :
    overlay (overlay v start bs) (start + bs.length) bs' = overlay v start (bs ++ bs') := by
  refine Vector.ext fun i hi => ?_
  rw [getElem_overlay _ _ _ (by omega) i hi, getElem_overlay _ _ _ (by omega) i hi,
    getElem_overlay _ _ _ (by omega) i hi]
  by_cases hlow : start ≤ i
  · by_cases hmid : i - start < bs.length
    · rw [if_neg (by omega), if_pos hlow, if_pos hlow, List.getElem?_append_left hmid]
    · rw [if_pos (by omega), if_pos hlow, if_pos hlow, List.getElem?_append_right (by omega),
        List.getElem?_eq_none (by omega : bs.length ≤ i - start), Option.getD_none, Nat.sub_sub]
  · rw [if_neg (by omega), if_neg hlow, if_neg hlow]

theorem slice_succ (h : start < n) : slice v start (count + 1) = byteAt v start :: slice v (start + 1) count := by
  have hget : v.toList[start]? = some (byteAt v start) := by
    rw [byteAt, ← Vector.getElem?_toList, List.getElem?_eq_getElem (by simpa using h)]
    rfl
  rw [slice, slice, List.drop_eq_getElem_cons (by simpa using h), List.take_succ_cons]
  rw [List.getElem?_eq_getElem (by simpa using h)] at hget
  rw [Option.some.inj hget]

end Content

/-- The addresses of a page are canonical together. -/
theorem VirtAddr.isCanonical_add {start k : Nat} (h : IsCanonical start) (hfit : start % pageSize + k < pageSize) :
    IsCanonical (start + k) := by
  have hsize : pageSize = 4096 := rfl
  have hlimit : Word.limit = 18446744073709551616 := rfl
  simp only [IsCanonical, hsize, hlimit, Nat.one_shiftLeft] at h hfit ⊢
  omega

/-- Accesses the byte at the `i`-th address behind `va`. -/
def touchAt (id : SpaceId) (va : VirtAddr) (i : Nat) (write : Bool) (value : Option UInt8) : Paging UInt8 := do
  let cur ← userAddr va i
  touch id cur write value

/-- Stores the bytes one at a time, the first of them at the `i`-th address behind `va`. -/
def storeEach (id : SpaceId) (va : VirtAddr) : Nat → Bytes → Paging Unit
  | _, [] => return
  | i, b :: bs => do
    let _ ← touchAt id va i true (some b)
    storeEach id va (i + 1) bs

/-- Loads `count` bytes one at a time from the `i`-th address behind `va` on, up to the first that fails. -/
def loadEach (id : SpaceId) (va : VirtAddr) : Nat → Nat → Paging Transfer
  | _, 0 => return .done
  | i, count + 1 => do
    match ← attempt (touchAt id va i false none) with
    | .error f => return .stopped f
    | .ok b => return (← loadEach id va (i + 1) count).after [b]

section

variable {s t : System} {id : SpaceId} {va : VirtAddr} {i count : Nat} {bs bs' : Bytes}

theorem userAddr_of_canonical (h : VirtAddr.IsCanonical (va.toNat + i)) : userAddr va i = pure ⟨va.toNat + i⟩ := by
  unfold userAddr VirtAddr.add? VirtAddr.ofNat?
  rw [if_pos h]

theorem userAddr_of_not_canonical (h : ¬ VirtAddr.IsCanonical (va.toNat + i)) : userAddr va i = fail .badAddress := by
  unfold userAddr VirtAddr.add? VirtAddr.ofNat?
  rw [if_neg h]

theorem touchAt_of_canonical (h : VirtAddr.IsCanonical (va.toNat + i)) (write : Bool) (value : Option UInt8) :
    touchAt id va i write value = touch id ⟨va.toNat + i⟩ write value := by
  rw [touchAt, userAddr_of_canonical h, pure_bind]

theorem touchAt_of_not_canonical (h : ¬ VirtAddr.IsCanonical (va.toNat + i)) (write : Bool) (value : Option UInt8) :
    touchAt id va i write value = fail .badAddress := by
  rw [touchAt, userAddr_of_not_canonical h]
  rfl

theorem storeEach_append : storeEach id va i (bs ++ bs') =
    storeEach id va i bs >>= fun _ => storeEach id va (i + bs.length) bs' := by
  induction bs generalizing i with
  | nil => rfl
  | cons b bs ih =>
    simp only [List.cons_append, storeEach, ih, bind_assoc, List.length_cons]
    rw [Nat.add_assoc, Nat.add_comm 1]

theorem loadEach_succ_of_ok {b : UInt8} {tr : Transfer} {u : System} (hbyte : touchAt id va i false none s = .ok b t)
    (hrest : loadEach id va (i + 1) count t = .ok tr u) : loadEach id va i (count + 1) s = .ok (tr.after [b]) u := by
  rw [loadEach]
  refine (bind_eq_of_eq_ok (attempt_of_eq_ok hbyte) _).trans ?_
  exact bind_eq_of_eq_ok hrest _

theorem loadEach_succ_of_error {f : Failure} (hbyte : touchAt id va i false none s = .error f t) :
    loadEach id va i (count + 1) s = .ok (.stopped f) t := by
  rw [loadEach]
  exact bind_eq_of_eq_ok (attempt_of_eq_error hbyte) _

/-- Loading always ends with what was loaded and why it stopped. -/
theorem exists_loadEach (s : System) (id : SpaceId) (va : VirtAddr) (i count : Nat) :
    ∃ tr t, loadEach id va i count s = .ok tr t := by
  induction count generalizing s i with
  | zero => exact ⟨_, _, rfl⟩
  | succ count ih =>
    cases hbyte : touchAt id va i false none s with
    | ok b t =>
      obtain ⟨tr, u, hrest⟩ := ih t (i + 1)
      exact ⟨_, _, loadEach_succ_of_ok hbyte hrest⟩
    | error f t => exact ⟨_, _, loadEach_succ_of_error hbyte⟩

/-- What is loaded of a run is what is loaded of its first part, and then of the rest unless that has stopped. -/
theorem loadEach_add {m n : Nat} {tr tr' : Transfer} {u : System} (hfirst : loadEach id va i m s = .ok tr t)
    (hrest : loadEach id va (i + m) n t = .ok tr' u) :
    loadEach id va i (m + n) s = match tr.failure with
      | none => .ok (tr'.after tr.bytes) u
      | some _ => .ok tr t := by
  induction m generalizing s i tr with
  | zero =>
    cases hfirst
    rw [Nat.zero_add]
    exact hrest
  | succ m ih =>
    have hcount : m + 1 + n = m + n + 1 := by omega
    have hindex : i + (m + 1) = i + 1 + m := by omega
    rw [hcount]
    rw [hindex] at hrest
    cases hbyte : touchAt id va i false none s with
    | error f v =>
      rw [loadEach_succ_of_error hbyte] at hfirst ⊢
      cases hfirst
      rfl
    | ok b v =>
      obtain ⟨⟨bytes, failure⟩, w, hmid⟩ := exists_loadEach v id va (i + 1) m
      rw [loadEach_succ_of_ok hbyte hmid] at hfirst
      cases hfirst
      have hall := ih hmid hrest
      cases failure with
      | none => exact loadEach_succ_of_ok hbyte hall
      | some f => exact loadEach_succ_of_ok hbyte hall

end

namespace System.Opened

variable {s : System} {id : SpaceId} {va : VirtAddr} {i : Nat} {pa : PhysAddr} {content : PageContent}

/-- All bytes of a page that is open can be stored. -/
theorem storeEach {bs : Bytes} (h : s.Opened ⟨id, (⟨va.toNat + i⟩ : VirtAddr).pageDown⟩ true pa content)
    (hcanonical : VirtAddr.IsCanonical (va.toNat + i)) (hfit : (va.toNat + i) % pageSize + bs.length ≤ pageSize) :
    storeEach id va i bs s = .ok () (s.withFrame pa (Content.overlay content ((va.toNat + i) % pageSize) bs)) := by
  induction bs generalizing s i content with
  | nil =>
    rw [Content.overlay_nil, withFrame_eq_self h.bytes]
    rfl
  | cons b bs ih =>
    have htouch : touch id ⟨va.toNat + i⟩ true (some b) s = .ok (Content.byteAt content ((va.toNat + i) % pageSize))
        (s.withFrame pa (Content.overlay content ((va.toNat + i) % pageSize) [b])) := h.withUserPage _
    rw [DemandPaging.storeEach, touchAt_of_canonical hcanonical, bind_eq_of_eq_ok htouch]
    cases bs with
    | nil => rfl
    | cons b' bs =>
      simp only [List.length_cons] at hfit
      have hinside : (va.toNat + i) % pageSize + 1 < pageSize := by omega
      obtain ⟨hpage, hoffset⟩ := VirtAddr.pageDown_add hinside
      have hnext := h.withFrame (Content.overlay content ((va.toNat + i) % pageSize) [b])
      rw [← hpage, Nat.add_assoc] at hnext
      rw [Nat.add_assoc] at hoffset
      have hcanonical' : VirtAddr.IsCanonical (va.toNat + (i + 1)) :=
        Nat.add_assoc va.toNat i 1 ▸ VirtAddr.isCanonical_add hcanonical hinside
      rw [ih hnext hcanonical' (by rw [hoffset, List.length_cons]; omega), withFrame_withFrame, hoffset]
      congr 2
      exact Content.overlay_append [b] _ (by simp only [List.length_cons, List.length_nil]; omega)

/-- A byte of a page that is open is loaded, and nothing changes. -/
theorem touchAt (h : s.Opened ⟨id, (⟨va.toNat + i⟩ : VirtAddr).pageDown⟩ false pa content)
    (hcanonical : VirtAddr.IsCanonical (va.toNat + i)) :
    touchAt id va i false none s = .ok (Content.byteAt content ((va.toNat + i) % pageSize)) s := by
  rw [touchAt_of_canonical hcanonical]
  refine (h.withUserPage _).trans ?_
  rw [withFrame_eq_self h.bytes]
  rfl

/-- All bytes of a page that is open can be loaded. -/
theorem loadEach {count : Nat} (h : s.Opened ⟨id, (⟨va.toNat + i⟩ : VirtAddr).pageDown⟩ false pa content)
    (hcanonical : VirtAddr.IsCanonical (va.toNat + i)) (hfit : (va.toNat + i) % pageSize + count ≤ pageSize) :
    loadEach id va i count s = .ok ⟨Content.slice content ((va.toNat + i) % pageSize) count, none⟩ s := by
  induction count generalizing i with
  | zero => rfl
  | succ count ih =>
    have hrest : DemandPaging.loadEach id va (i + 1) count s =
        .ok ⟨Content.slice content ((va.toNat + i) % pageSize + 1) count, none⟩ s := by
      cases count with
      | zero => rfl
      | succ count =>
        have hinside : (va.toNat + i) % pageSize + 1 < pageSize := by omega
        obtain ⟨hpage, hoffset⟩ := VirtAddr.pageDown_add hinside
        have hcanonical' := VirtAddr.isCanonical_add hcanonical hinside
        rw [Nat.add_assoc] at hpage hoffset hcanonical'
        rw [← hpage] at h
        rw [ih h hcanonical' (by omega), hoffset]
    rw [loadEach_succ_of_ok (h.touchAt hcanonical) hrest, Content.slice_succ (Nat.mod_lt _ (by decide))]
    rfl

end System.Opened

section

variable {s : System} {id : SpaceId} {va : VirtAddr} {i : Nat}

/-- A part of a page is stored as its bytes are one by one. -/
theorem storePart_eq (hs : s.WellFormed) (hv : s.view.Sound) {bs : Bytes} (hbs : bs ≠ [])
    (hfit : (va.toNat + i) % pageSize + bs.length ≤ pageSize) : (do
      let cur ← userAddr va i
      withUserPage id cur true fun content => ((), Content.overlay content cur.offset bs)) s =
    storeEach id va i bs s := by
  obtain ⟨b, bs, rfl⟩ := List.exists_cons_of_ne_nil hbs
  by_cases hcanonical : VirtAddr.IsCanonical (va.toNat + i)
  · have htouch (t : System) : storeEach id va i (b :: bs) t =
        (touch id ⟨va.toNat + i⟩ true (some b) >>= fun _ => storeEach id va (i + 1) bs) t := by
      rw [storeEach, touchAt_of_canonical hcanonical]
    rw [userAddr_of_canonical hcanonical, pure_bind]
    obtain ⟨f, t, -, hfails⟩ | ⟨t, pa, content, hopened, -, -, hsame⟩ :=
      exists_access hs hv id ⟨va.toNat + i⟩ true
    · rw [htouch, touch, bind_eq_of_eq_error (hfails _), hfails]
    · have hfirst : storeEach id va i (b :: bs) s = storeEach id va i (b :: bs) t := by
        rw [htouch, htouch, touch]
        simp only [bind, EStateM.bind, hsame]
      rw [hfirst, hopened.storeEach hcanonical hfit, hsame, hopened.withUserPage]
      rfl
  · rw [userAddr_of_not_canonical hcanonical, storeEach, touchAt_of_not_canonical hcanonical]
    rfl

/-- A part of a page is loaded as its bytes are one by one. -/
theorem wp_loadPart (id : SpaceId) (hs : s.WellFormed) (hv : s.view.Sound) {n : Nat} (hn : 0 < n)
    (hfit : (va.toNat + i) % pageSize + n ≤ pageSize) :
    wp (do
      let cur ← userAddr va i
      withUserPage id cur false fun content => (Content.slice content cur.offset n, content)) s
      (fun bs t => t.WellFormed ∧ t.view.Sound ∧ loadEach id va i n s = .ok ⟨bs, none⟩ t)
      fun f t => loadEach id va i n s = .ok (.stopped f) t := by
  obtain ⟨n, rfl⟩ := Nat.exists_eq_succ_of_ne_zero hn.ne'
  by_cases hcanonical : VirtAddr.IsCanonical (va.toNat + i)
  · rw [userAddr_of_canonical hcanonical, pure_bind]
    have hbyte : touchAt id va i false none = _ := touchAt_of_canonical hcanonical false none
    obtain ⟨f, t, -, hfails⟩ | ⟨t, pa, content, hopened, -, -, hsame⟩ :=
      exists_access hs hv id ⟨va.toNat + i⟩ false
    · rw [wp, hfails]
      exact loadEach_succ_of_error (hbyte ▸ hfails _)
    · rw [wp, hsame, hopened.withUserPage]
      -- The first byte opens the page; from there on it is the same from `t`.
      have htouch := hopened.touchAt hcanonical
      have hfirst : touchAt id va i false none s = touchAt id va i false none t := by
        rw [hbyte]
        exact hsame _
      obtain ⟨tr, u, hrest⟩ := exists_loadEach t id va (i + 1) n
      rw [System.withFrame_eq_self hopened.bytes]
      refine ⟨hopened.wellFormed, hopened.sound, ?_⟩
      rw [loadEach_succ_of_ok (hfirst.trans htouch) hrest, ← loadEach_succ_of_ok htouch hrest]
      exact hopened.loadEach hcanonical hfit
  · rw [userAddr_of_not_canonical hcanonical]
    exact loadEach_succ_of_error (by rw [touchAt_of_not_canonical hcanonical]; rfl)

theorem readPieces_cons_of_ok {p : Piece} {ps : List Piece} {bs : Bytes} {tr : Transfer} {t u : System} (hpart : (do
      let cur ← userAddr va (p.start - va.toNat)
      withUserPage id cur false fun content => (Content.slice content cur.offset p.length, content)) s = .ok bs t)
    (hrest : readPieces id va ps t = .ok tr u) : readPieces id va (p :: ps) s = .ok (tr.after bs) u := by
  rw [readPieces]
  refine (bind_eq_of_eq_ok (attempt_of_eq_ok hpart) _).trans ?_
  exact bind_eq_of_eq_ok hrest _

theorem readPieces_cons_of_error {p : Piece} {ps : List Piece} {f : Failure} {t : System} (hpart : (do
      let cur ← userAddr va (p.start - va.toNat)
      withUserPage id cur false fun content => (Content.slice content cur.offset p.length, content)) s = .error f t) :
    readPieces id va (p :: ps) s = .ok (.stopped f) t := by
  rw [readPieces]
  exact bind_eq_of_eq_ok (attempt_of_eq_error hpart) _

/-- Parts of pages are stored as their bytes are one by one. -/
theorem forM_step_eq_storeEach (hs : s.WellFormed) (hv : s.view.Sound) {bytes : Bytes} {fuel start count : Nat}
    (hstart : va.toNat ≤ start) (hcount : count ≤ fuel) (hend : start - va.toNat + count ≤ bytes.length) :
    (Piece.cut fuel start count).forM (UserCopy.step id va (.write bytes)) s =
      storeEach id va (start - va.toNat) ((bytes.drop (start - va.toNat)).take count) s := by
  induction fuel generalizing s start count with
  | zero =>
    obtain rfl : count = 0 := by omega
    rfl
  | succ fuel ih =>
    by_cases hzero : count = 0
    · subst hzero
      rfl
    have hmod : start % pageSize < pageSize := Nat.mod_lt _ (by decide)
    rw [Piece.cut_succ hzero]
    set n := min (pageSize - start % pageSize) count with hn
    have hsum : va.toNat + (start - va.toNat) = start := by omega
    have hlength : ((bytes.drop (start - va.toNat)).take n).length = n := by
      rw [List.length_take, List.length_drop]
      omega
    have hsplit : (bytes.drop (start - va.toNat)).take count =
        (bytes.drop (start - va.toNat)).take n ++ (bytes.drop (start + n - va.toNat)).take (count - n) := by
      have hsub : start + n - va.toNat = start - va.toNat + n := by omega
      rw [hsub, ← List.drop_drop, ← List.take_add]
      congr 1
      omega
    have hne : (bytes.drop (start - va.toNat)).take n ≠ [] := List.ne_nil_of_length_pos (by rw [hlength]; omega)
    have hfit : (va.toNat + (start - va.toNat)) % pageSize + ((bytes.drop (start - va.toNat)).take n).length ≤
        pageSize := by
      rw [hsum, hlength]
      omega
    have hstep : UserCopy.step id va (.write bytes) ⟨start, n⟩ s =
        storeEach id va (start - va.toNat) ((bytes.drop (start - va.toNat)).take n) s :=
      storePart_eq hs hv hne hfit
    have hkept : wp (UserCopy.step id va (.write bytes) ⟨start, n⟩) s _ _ := UserCopy.wp_step hs hv hstart
    change (UserCopy.step id va (.write bytes) ⟨start, n⟩ >>= fun _ =>
      (Piece.cut fuel (start + n) (count - n)).forM (UserCopy.step id va (.write bytes))) s = _
    rw [hsplit, storeEach_append, hlength]
    have hnext : start - va.toNat + n = start + n - va.toNat := by omega
    cases hresult : UserCopy.step id va (.write bytes) ⟨start, n⟩ s with
    | error f t => rw [bind_eq_of_eq_error hresult, bind_eq_of_eq_error (hstep.symm.trans hresult)]
    | ok _ t =>
      obtain ⟨ht, hv', -⟩ := hkept.of_ok hresult
      rw [bind_eq_of_eq_ok hresult, bind_eq_of_eq_ok (hstep.symm.trans hresult), hnext]
      exact ih ht hv' (by omega) (by omega) (by omega)

/-- Parts of pages are loaded as their bytes are one by one. -/
theorem readPieces_eq_loadEach (hs : s.WellFormed) (hv : s.view.Sound) {fuel start count : Nat}
    (hstart : va.toNat ≤ start) (hcount : count ≤ fuel) :
    readPieces id va (Piece.cut fuel start count) s = loadEach id va (start - va.toNat) count s := by
  induction fuel generalizing s start count with
  | zero =>
    obtain rfl : count = 0 := by omega
    rfl
  | succ fuel ih =>
    by_cases hzero : count = 0
    · subst hzero
      rfl
    have hmod : start % pageSize < pageSize := Nat.mod_lt _ (by decide)
    rw [Piece.cut_succ hzero]
    set n := min (pageSize - start % pageSize) count with hn
    have hsum : va.toNat + (start - va.toNat) = start := by omega
    have hfit : (va.toNat + (start - va.toNat)) % pageSize + n ≤ pageSize := by
      rw [hsum]
      omega
    have hpart := wp_loadPart id hs hv (by omega) hfit
    have hnext : start - va.toNat + n = start + n - va.toNat := by omega
    have hadd : n + (count - n) = count := by omega
    cases hresult : (do
        let cur ← userAddr va (start - va.toNat)
        withUserPage id cur false fun content => (Content.slice content cur.offset n, content)) s with
    | error f t =>
      rw [readPieces_cons_of_error hresult, ← hadd]
      obtain ⟨tr', u', hrest⟩ := exists_loadEach t id va (start - va.toNat + n) (count - n)
      exact (loadEach_add (hpart.of_error hresult) hrest).symm
    | ok bs t =>
      obtain ⟨ht, hv', hfirst⟩ := hpart.of_ok hresult
      obtain ⟨tr', u', hrest⟩ := exists_loadEach t id va (start - va.toNat + n) (count - n)
      have hpieces : readPieces id va (Piece.cut fuel (start + n) (count - n)) t = _ := ih ht hv' (by omega) (by omega)
      rw [readPieces_cons_of_ok hresult (hpieces.trans (hnext ▸ hrest)), ← hadd]
      exact (loadEach_add hfirst hrest).symm

end

namespace Paging

variable {s : System}

theorem copyToUser_eq_storeEach (hs : s.WellFormed) (hv : s.view.Sound) (id : SpaceId) (va : VirtAddr) (bytes : Bytes) :
    copyToUser id va bytes s = (do
      storeEach id va 0 bytes
      return bytes.length) s := by
  have hall : (Piece.run va.toNat bytes.length).forM (UserCopy.step id va (.write bytes)) s = _ :=
    forM_step_eq_storeEach hs hv (Nat.le_refl _) (Nat.le_refl _) (by omega)
  rw [Nat.sub_self, List.drop_zero, List.take_length] at hall
  have hrun : copyToUser id va bytes = (Piece.run va.toNat bytes.length).forM (UserCopy.step id va (.write bytes)) >>=
      fun _ => pure bytes.length := rfl
  rw [hrun]
  simp only [bind, EStateM.bind, hall]

theorem copyFromUser_eq_loadEach (hs : s.WellFormed) (hv : s.view.Sound) (id : SpaceId) (va : VirtAddr) (count : Nat) :
    copyFromUser id va count s = loadEach id va 0 count s := by
  have hall : readPieces id va (Piece.run va.toNat count) s = _ :=
    readPieces_eq_loadEach hs hv (Nat.le_refl _) (Nat.le_refl _)
  rwa [Nat.sub_self] at hall

end Paging

end DemandPaging
