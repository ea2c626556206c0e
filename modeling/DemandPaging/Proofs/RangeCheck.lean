import DemandPaging.Proofs.PageIdentity

/-!
The check of a range of user memory. It foretells how a copy of the range ends: one that it accepts is copied whole, and
one that it refuses is not, unless a page cannot be loaded on the way.
-/

namespace DemandPaging

/-! ### What the table of pages denies -/

/-- An access to the byte with number `n` is refused with `e`, wherever the bytes of pages are. -/
inductive Space.Denies (sp : Space) (write : Bool) (n : Nat) : Errno → Prop
  | missing (hpage : sp.page? ⟨n⟩ = none) : Denies sp write n .badAddress
  | kernel (hkernel : kernelBase ≤ n) : Denies sp write n .badAddress
  | outside (hcanonical : ¬ VirtAddr.IsCanonical n) : Denies sp write n .badAddress
  | readOnly {page : PageEntry} (hpage : sp.page? ⟨n⟩ = some page) (hwrite : write = true)
    (hreadOnly : page.writable = false) : Denies sp write n .invalidAccess

namespace Space

variable {sp sp' : Space} {write : Bool} {m n count : Nat} {e : Errno}

/-- A byte that is not denied is in a page of user memory that allows the access. -/
theorem not_denies_iff : (∀ e, ¬ sp.Denies write n e) ↔ n < kernelBase ∧
    ∃ page, sp.page? ⟨n⟩ = some page ∧ (write = true → page.writable = true) := by
  constructor
  · intro h
    have huser : n < kernelBase := Nat.lt_of_not_le fun hkernel => h _ (.kernel hkernel)
    cases hpage : sp.page? ⟨n⟩ with
    | none => exact absurd (.missing hpage) (h _)
    | some page =>
      refine ⟨huser, page, rfl, fun hwrite => ?_⟩
      exact Bool.of_not_eq_false fun hreadOnly => h _ (.readOnly hpage hwrite hreadOnly)
  · rintro ⟨huser, page, hpage, hwritable⟩ e hdenies
    cases hdenies with
    | missing hmissing => cases hpage.symm.trans hmissing
    | kernel hkernel => exact absurd huser (Nat.not_lt.2 hkernel)
    | outside hcanonical => exact hcanonical (.inl huser)
    | readOnly hpage' hwrite hreadOnly =>
      obtain rfl := Option.some.inj (hpage.symm.trans hpage')
      exact Bool.false_ne_true (hreadOnly.symm.trans (hwritable hwrite))

/-- What is denied depends on where pages are and what they allow. -/
theorem Denies.congr (h : sp.Denies write n e)
    (hrights : (sp'.page? ⟨n⟩).map PageEntry.writable = (sp.page? ⟨n⟩).map PageEntry.writable) : sp'.Denies write n e := by
  cases h with
  | missing hpage => exact .missing (Option.map_eq_none_iff.1 (by rw [hrights, hpage, Option.map_none]))
  | kernel hkernel => exact .kernel hkernel
  | outside hcanonical => exact .outside hcanonical
  | readOnly hpage hwrite hreadOnly =>
    rw [hpage, Option.map_some, Option.map_eq_some_iff] at hrights
    obtain ⟨page', hpage', hwritable⟩ := hrights
    exact .readOnly hpage' hwrite (hwritable.trans hreadOnly)

theorem page?_eq_of_pageDown {a b : VirtAddr} (h : a.pageDown = b.pageDown) : sp.page? a = sp.page? b := by
  rw [page?, page?, h]

theorem allowsPages_iff {va : VirtAddr} : sp.allowsPages write count va = true ↔
    ∀ i < count, ∃ page, sp.page? ⟨va.toNat + i * pageSize⟩ = some page ∧ (write = true → page.writable = true) := by
  induction count generalizing va with
  | zero => simp [allowsPages]
  | succ count ih =>
    have hnext (i : Nat) : va.toNat + pageSize + i * pageSize = va.toNat + (i + 1) * pageSize := by
      rw [Nat.succ_mul, Nat.add_right_comm, Nat.add_assoc]
    rw [allowsPages, Nat.forall_lt_succ_left, Nat.zero_mul, Nat.add_zero]
    cases hpage : sp.page? va with
    | none => simp
    | some page =>
      simp only [Bool.and_eq_true, ih, hnext, Option.some.injEq, exists_eq_left']
      cases write <;> simp

/-- The check walks over pages, and so every byte of the range is checked. -/
theorem allows_iff {va : VirtAddr} : sp.allows va ⟨va.toNat + count⟩ write = true ↔
    ∀ n < count, ∀ e, ¬ sp.Denies write (va.toNat + n) e := by
  have hsize : pageSize = 4096 := rfl
  simp only [not_denies_iff]
  unfold allows
  by_cases hempty : count = 0
  · subst hempty
    exact iff_of_true (if_pos (Nat.le_refl va.toNat)) fun n hn => absurd hn (Nat.not_lt_zero n)
  have hnot : ¬ (⟨va.toNat + count⟩ : VirtAddr) ≤ va := fun hle => by
    have hle' : va.toNat + count ≤ va.toNat := hle
    omega
  rw [if_neg hnot]
  by_cases hkernel : kernelBase < va.toNat + count
  · rw [if_pos hkernel]
    refine iff_of_false Bool.false_ne_true fun h => ?_
    have huser := (h (count - 1) (by omega)).1
    omega
  rw [if_neg hkernel, allowsPages_iff]
  have hfirst : va.pageDown.toNat = va.toNat / pageSize * pageSize := rfl
  rw [hfirst]
  dsimp only
  constructor
  · intro h n hn
    refine ⟨by omega, ?_⟩
    have hsame : sp.page? ⟨va.toNat + n⟩ =
        sp.page? ⟨va.toNat / pageSize * pageSize + ((va.toNat + n) / pageSize - va.toNat / pageSize) * pageSize⟩ :=
      page?_eq_of_pageDown (VirtAddr.ext (by simp only [VirtAddr.pageDown, hsize]; omega))
    rw [hsame]
    exact h _ (by rw [hsize]; omega)
  · intro h i hi
    have hsame : sp.page? ⟨va.toNat / pageSize * pageSize + i * pageSize⟩ =
        sp.page? ⟨va.toNat + (va.toNat / pageSize * pageSize + i * pageSize - va.toNat)⟩ :=
      page?_eq_of_pageDown (VirtAddr.ext (by simp only [VirtAddr.pageDown, hsize]; omega))
    rw [hsame]
    rw [hsize] at hi
    exact (h _ (by rw [hsize]; omega)).2

end Space

/-! ### Pieces -/

/-- The kernel half begins at the start of a page. -/
theorem VirtAddr.lt_kernelBase {va : VirtAddr} (h : va.pageDown.toNat < kernelBase) : va.toNat < kernelBase := by
  have hdown : va.toNat / 4096 * 4096 < 0x800000000000 := h
  change va.toNat < 0x800000000000
  omega

namespace Piece

variable {n : Nat} {p : Piece}

/-- The bytes of a piece are in one page. -/
theorem pageDown_eq (hp : p.offset + p.length ≤ pageSize) (hlow : p.start ≤ n) (hhigh : n < p.start + p.length) :
    (⟨n⟩ : VirtAddr).pageDown = (⟨p.start⟩ : VirtAddr).pageDown := by
  have hpage : (⟨p.start + (n - p.start)⟩ : VirtAddr).pageDown = (⟨p.start⟩ : VirtAddr).pageDown :=
    (VirtAddr.pageDown_add (by simp only [offset] at hp; omega)).1
  rwa [Nat.add_sub_cancel' hlow] at hpage

end Piece

/-! ### Copies -/

/-- A copy of bytes out of user memory, or into it. -/
inductive UserCopy where
  | read (count : Nat)
  | write (bytes : Bytes)

namespace UserCopy

/-- The number of bytes to copy. -/
def count : UserCopy → Nat
  | read count => count
  | write bytes => bytes.length

/-- Whether user memory is written. -/
def isWrite : UserCopy → Bool
  | read _ => false
  | write _ => true

/-- The copy of the first `n` bytes. -/
def take (n : Nat) : UserCopy → UserCopy
  | read count => read (min n count)
  | write bytes => write (bytes.take n)

/-- Copies from `va` of `id` on, and returns the number of bytes. What a copy that fails has moved is not returned. -/
def run (id : SpaceId) (va : VirtAddr) : UserCopy → Paging Nat
  | read count => do
    let t ← Paging.copyFromUser id va count
    match t.failure with
    | none => return t.bytes.length
    | some f => throw f
  | write bytes => Paging.copyToUser id va bytes

/-- Copies one piece. -/
def step (id : SpaceId) (va : VirtAddr) (c : UserCopy) (p : Piece) : Paging Unit := do
  let cur ← Paging.userAddr va (p.start - va.toNat)
  match c with
  | read _ =>
    let _ ← Paging.withUserPage id cur false fun content => (Content.slice content cur.offset p.length, content)
  | write bytes =>
    Paging.withUserPage id cur true fun content =>
      ((), Content.overlay content cur.offset (p.part va.toNat bytes))

/-- The copy comes to a page that it may access and that cannot be claimed, which fails with `f`. -/
def LoadFails (c : UserCopy) (id : SpaceId) (va : VirtAddr) (s : System) (f : Failure) : Prop :=
  ∃ n t u page, n < c.count ∧ (c.take n).run id va s = .ok n t ∧ (t.space id).page? ⟨va.toNat + n⟩ = some page ∧
    (c.isWrite = true → page.writable = true) ∧ Paging.claim id ⟨va.toNat + n⟩ t = .error f u

/-- The copy comes to a byte that it may not access, which is refused with `e`. -/
def Denied (c : UserCopy) (id : SpaceId) (va : VirtAddr) (s : System) (e : Errno) : Prop :=
  ∃ n t, n < c.count ∧ (c.take n).run id va s = .ok n t ∧ (s.space id).Denies c.isWrite (va.toNat + n) e

end UserCopy

/-- An access to a page neither adds pages nor removes any, and changes for none what it allows. -/
theorem Trace.writable_eq {v w : View} {ds : List Deed} (h : Trace v ds w) {p : PageId} {write : Bool}
    (hds : ∀ d ∈ ds, d.IsOfTouch p write) (q : PageId) :
    (w.pages q).map PageEntry.writable = (v.pages q).map PageEntry.writable := by
  cases hq : v.pages q with
  | none =>
    rw [h.pages_eq_none (fun d hd => ?_) hq]
    obtain ⟨fresh, rfl⟩ | ⟨start, bytes, rfl⟩ := hds d hd <;> exact not_false
  | some page =>
    obtain ⟨n, hcourse⟩ := h.exists_course (p := q) fun hremoved => by
      obtain ⟨fresh, hd⟩ | ⟨start, bytes, hd⟩ := hds _ hremoved <;> cases hd
    obtain ⟨page', hpage', hcontinues, -⟩ := hcourse.continues hq
    rw [hpage', Option.map_some, Option.map_some, hcontinues.writable]

namespace Paging

variable {s : System}

/-- An access to a byte succeeds unless the table of pages denies it or its page cannot be claimed. -/
theorem wp_withUserPage_denies (hs : s.WellFormed) (hv : s.view.Sound) {α : Type} (id : SpaceId) (va : VirtAddr)
    (write : Bool) {f : PageContent → α × PageContent} {start : Nat}
    {bytes : Bytes} (hf : ∀ content, (f content).2 = Content.overlay content start bytes) :
    wp (withUserPage id va write f) s
      (fun _ t => t.WellFormed ∧ t.view.Sound ∧
        (∀ q, (t.page? q).map PageEntry.writable = (s.page? q).map PageEntry.writable) ∧
        ∀ e, ¬ (s.space id).Denies write va.toNat e)
      fun o _ => (∃ e, o = .error e ∧ (s.space id).Denies write va.toNat e) ∨
        ∃ page t, (s.space id).page? va = some page ∧ (write = true → page.writable = true) ∧
          claim id va s = .error o t := by
  have hkept : wp (withUserPage id va write f) s (fun _ t => t.WellFormed ∧ t.view.Sound ∧
      ∀ q, (t.page? q).map PageEntry.writable = (s.page? q).map PageEntry.writable) fun _ _ => True :=
    (performs_withUserPage hs hv id va write hf).wp
      (fun _ _ _ ht htrace hr => ⟨ht, htrace.sound hv, htrace.writable_eq hr.1⟩) fun _ _ _ _ _ _ => trivial
  have hends : wp (withUserPage id va write f) s (fun _ _ => ∀ e, ¬ (s.space id).Denies write va.toNat e)
      fun o _ => (∃ e, o = .error e ∧ (s.space id).Denies write va.toNat e) ∨
        ∃ page t, (s.space id).page? va = some page ∧ (write = true → page.writable = true) ∧
          claim id va s = .error o t := by
    unfold withUserPage
    rw [wp_bind, wp_space]
    cases hpage : (s.space id).page? va with
    | none => exact .inl ⟨_, rfl, .missing hpage⟩
    | some page =>
      have hpage' : s.view.pages ⟨id, va.pageDown⟩ = some page := hpage
      change wp (if (write && !page.writable) = true then _ else
        claimPage id va.pageDown page >>= usePage id va write f) s _ _
      split
      next hdenied =>
        rw [Bool.and_eq_true, Bool.not_eq_true'] at hdenied
        exact .inl ⟨_, rfl, .readOnly hpage hdenied.1 hdenied.2⟩
      next hallowed =>
        have hwritable : write = true → page.writable = true := by simpa using hallowed
        have huser : va.toNat < kernelBase := VirtAddr.lt_kernelBase (hv.page hpage').2.user
        have hclaim := performs_claimPage (p := ⟨id, va.pageDown⟩) hs hv hpage'
        rw [wp_bind]
        cases hresult : claimPage id va.pageDown page s with
        | error o t =>
          rw [wp, hresult]
          exact .inr ⟨page, t, rfl, hwritable, (System.claim_of_page hpage').trans hresult⟩
        | ok pa t =>
          obtain ⟨ht, ds, htrace, -, page', hpage'', hframe, -⟩ := hclaim.of_ok hresult
          rw [wp, hresult]
          exact wp_usePage ht (htrace.sound hv) hpage'' hframe write f fun _ _ _ _ _ _ _ =>
            Space.not_denies_iff.2 ⟨huser, page, hpage, hwritable⟩
  exact (hkept.and hends).mono (fun _ _ h => ⟨h.1.1, h.1.2.1, h.1.2.2, h.2⟩) fun _ _ h => h.2

/-- A loop over a list whose rounds keep `I` comes to its end, or one of its rounds fails after those in front of it. -/
theorem wp_forM_first {β : Type} {f : β → Paging Unit} {I : System → Prop} {Q : β → Prop}
    {E : β → System → Failure → Prop} (l : List β)
    (hround : ∀ b ∈ l, ∀ t, I t → wp (f b) t (fun _ u => I u ∧ Q b) fun o _ => E b t o) (hs : I s) :
    wp (l.forM f) s (fun _ _ => ∀ b ∈ l, Q b) fun o _ =>
      ∃ bs b cs t, l = bs ++ b :: cs ∧ bs.forM f s = .ok () t ∧ E b t o := by
  induction l generalizing s with
  | nil => exact fun b hb => absurd hb List.not_mem_nil
  | cons b l ih =>
    change wp (f b >>= fun _ => l.forM f) s _ _
    rw [wp_bind]
    have hfirst := hround b (List.mem_cons_self ..) s hs
    unfold wp at hfirst ⊢
    cases hb : f b s with
    | error o t =>
      rw [hb] at hfirst
      exact ⟨[], b, l, s, rfl, rfl, hfirst⟩
    | ok _ t =>
      rw [hb] at hfirst
      refine (ih (fun c hc => hround c (List.mem_cons_of_mem _ hc)) hfirst.1).mono (fun _ _ h => ?_) fun o _ h => ?_
      · exact List.forall_mem_cons.2 ⟨hfirst.2, h⟩
      · obtain ⟨bs, c, cs, u, rfl, hbs, hfails⟩ := h
        refine ⟨b :: bs, c, cs, u, rfl, ?_, hfails⟩
        change EStateM.bind (f b) (fun _ => bs.forM f) s = _
        rw [EStateM.bind, hb]
        exact hbs

end Paging

namespace UserCopy

open Paging

variable {s t : System} {id : SpaceId} {va : VirtAddr} {c : UserCopy}

/-- A piece is copied unless its first byte is denied or its page cannot be claimed. -/
theorem wp_step (ht : t.WellFormed) (hv : t.view.Sound) {p : Piece} (hp : va.toNat ≤ p.start) :
    wp (c.step id va p) t
      (fun _ u => u.WellFormed ∧ u.view.Sound ∧
        (∀ q, (u.page? q).map PageEntry.writable = (t.page? q).map PageEntry.writable) ∧
        ∀ e, ¬ (t.space id).Denies c.isWrite p.start e)
      fun o _ => (∃ e, o = .error e ∧ (t.space id).Denies c.isWrite p.start e) ∨
        ∃ page u, (t.space id).page? ⟨p.start⟩ = some page ∧ (c.isWrite = true → page.writable = true) ∧
          claim id ⟨p.start⟩ t = .error o u := by
  have hstart : va.toNat + (p.start - va.toNat) = p.start := Nat.add_sub_cancel' hp
  simp only [step, wp_bind, userAddr, VirtAddr.add?, VirtAddr.ofNat?, hstart]
  by_cases hcanonical : VirtAddr.IsCanonical p.start
  · rw [if_pos hcanonical]
    cases c with
    | read _ =>
      simp only [wp_pure, wp_bind]
      exact wp_withUserPage_denies ht hv id ⟨p.start⟩ false fun content => (Content.overlay_nil content 0).symm
    | write bytes => exact wp_withUserPage_denies ht hv id ⟨p.start⟩ true fun _ => rfl
  · rw [if_neg hcanonical]
    exact .inl ⟨_, rfl, .outside hcanonical⟩

/-- Pieces are read one after the other until one fails. -/
theorem wp_forM_readPieces (count : Nat) (ps : List Piece) :
    wp (ps.forM (step id va (.read count))) s (fun _ t => ∃ bytes, readPieces id va ps s = .ok ⟨bytes, none⟩ t)
      fun f t => ∃ bytes, readPieces id va ps s = .ok ⟨bytes, some f⟩ t := by
  induction ps generalizing s with
  | nil => exact ⟨[], rfl⟩
  | cons p ps ih =>
    set part : Paging Bytes := do
      let cur ← userAddr va (p.start - va.toNat)
      withUserPage id cur false fun content => (Content.slice content cur.offset p.length, content) with hpart
    have hstep : step id va (.read count) p = part >>= fun _ => pure () := by simp only [step, hpart, bind_assoc]
    change wp (step id va (.read count) p >>= fun _ => ps.forM (step id va (.read count))) s _ _
    rw [hstep, wp_bind, wp_bind]
    unfold wp
    cases hpiece : part s with
    | error f t =>
      refine ⟨[], ?_⟩
      change (attempt part >>= _) s = _
      simp only [bind, EStateM.bind, attempt, hpiece]
      rfl
    | ok bytes t =>
      have hrest {rest : Bytes} {failure : Option Failure} {u : System}
          (h : readPieces id va ps t = .ok ⟨rest, failure⟩ u) :
          readPieces id va (p :: ps) s = .ok ⟨bytes ++ rest, failure⟩ u := by
        change (attempt part >>= _) s = _
        simp only [bind, EStateM.bind, attempt, hpiece, h]
        rfl
      refine (ih (s := t)).mono (fun _ u h => ?_) fun f u h => ?_
      · obtain ⟨rest, h⟩ := h
        exact ⟨bytes ++ rest, hrest h⟩
      · obtain ⟨rest, h⟩ := h
        exact ⟨bytes ++ rest, hrest h⟩

/-- A copy ends as its pieces do. -/
theorem wp_forM_step (hs : s.WellFormed) (hv : s.view.Sound) (id : SpaceId) (va : VirtAddr) (c : UserCopy) :
    wp ((Piece.run va.toNat c.count).forM (c.step id va)) s (fun _ t => c.run id va s = .ok c.count t)
      fun f t => c.run id va s = .error f t := by
  cases c with
  | read count =>
    refine (wp_forM_readPieces count (Piece.run va.toNat count)).mono (fun _ t h => ?_) fun f t h => ?_
    · obtain ⟨bytes, hread⟩ := h
      have hread' : copyFromUser id va count s = .ok ⟨bytes, none⟩ t := hread
      obtain ⟨-, -, -, -, -, -, tr, htr, -, -, hlength, -⟩ := (performs_copyFromUser hs hv id va count).of_ok hread'
      obtain rfl := Except.ok.inj htr
      simp only [run, bind, EStateM.bind, hread', hlength rfl]
      rfl
    · obtain ⟨bytes, hread⟩ := h
      have hread' : copyFromUser id va count s = .ok ⟨bytes, some f⟩ t := hread
      simp only [run, bind, EStateM.bind, hread']
      rfl
  | write bytes =>
    have hrun : run id va (.write bytes) =
        (Piece.run va.toNat bytes.length).forM (step id va (.write bytes)) >>= fun _ => pure bytes.length := rfl
    simp only [hrun, wp, count, bind, EStateM.bind]
    cases (Piece.run va.toNat bytes.length).forM (step id va (.write bytes)) s with
    | ok _ t => rfl
    | error f t => rfl

/-- The pieces in front of a byte are copied as if the copy ended there. -/
theorem step_take {n : Nat} {p : Piece} (hp : p ∈ Piece.run va.toNat n) :
    (c.take n).step id va p = c.step id va p := by
  cases c with
  | read count => rfl
  | write bytes =>
    obtain ⟨hlow, hhigh, -, -⟩ := Piece.of_mem_run hp
    have hpart : p.part va.toNat (bytes.take n) = p.part va.toNat bytes := by
      rw [Piece.part, Piece.part, List.drop_take, List.take_take, Nat.min_eq_left (by omega)]
    simp only [take, step, hpart]

theorem count_take {n : Nat} (hn : n ≤ c.count) : (c.take n).count = n := by
  cases c with
  | read count => exact Nat.min_eq_left hn
  | write bytes => exact List.length_take_of_le hn

/-- The pieces in front of a piece of a copy are those of the copy of the bytes in front of it. -/
theorem run_take_of_split (hs : s.WellFormed) (hv : s.view.Sound) {ps qs : List Piece} {p : Piece} {t : System}
    (hsplit : Piece.run va.toNat c.count = ps ++ p :: qs) (hps : ps.forM (c.step id va) s = .ok () t) :
    va.toNat + (p.start - va.toNat) = p.start ∧ p.start - va.toNat < c.count ∧
      (c.take (p.start - va.toNat)).run id va s = .ok (p.start - va.toNat) t := by
  obtain rfl := Piece.cut_eq_append hsplit
  have hp : p ∈ Piece.run va.toNat c.count := by
    rw [hsplit]
    exact List.mem_append_right _ (List.mem_cons_self ..)
  obtain ⟨hlow, hhigh, hpos, -⟩ := Piece.of_mem_run hp
  refine ⟨Nat.add_sub_cancel' hlow, by omega, ?_⟩
  have hrun := wp_forM_step hs hv id va (c.take (p.start - va.toNat))
  rw [count_take (by omega), forM_congr fun q hq => step_take hq] at hrun
  exact hrun.of_ok hps

/-- A copy that does not reach its end comes to a byte that it may not access, or to a page that cannot be claimed. -/
theorem wp_forM_denied (hs : s.WellFormed) (hv : s.view.Sound) (c : UserCopy) :
    wp ((Piece.run va.toNat c.count).forM (c.step id va)) s
      (fun _ _ => ∀ p ∈ Piece.run va.toNat c.count, ∀ e, ¬ (s.space id).Denies c.isWrite p.start e)
      fun f _ => (∃ e, f = .error e ∧ c.Denied id va s e) ∨ c.LoadFails id va s f := by
  have hround : ∀ p ∈ Piece.run va.toNat c.count, ∀ t : System, (t.WellFormed ∧ t.view.Sound ∧
      ∀ q, (t.page? q).map PageEntry.writable = (s.page? q).map PageEntry.writable) →
      wp (c.step id va p) t (fun _ u => (u.WellFormed ∧ u.view.Sound ∧
          ∀ q, (u.page? q).map PageEntry.writable = (s.page? q).map PageEntry.writable) ∧
          ∀ e, ¬ (s.space id).Denies c.isWrite p.start e)
        fun o _ => (∃ e, o = .error e ∧ (s.space id).Denies c.isWrite p.start e) ∨
          ∃ page u, (t.space id).page? ⟨p.start⟩ = some page ∧ (c.isWrite = true → page.writable = true) ∧
            claim id ⟨p.start⟩ t = .error o u := by
    rintro p hp t ⟨ht, hv', hsame⟩
    refine (wp_step ht hv' (Piece.of_mem_run hp).1).mono (fun _ u h => ?_) fun o _ h => ?_
    · obtain ⟨hu, hv'', hsame', hallowed⟩ := h
      exact ⟨⟨hu, hv'', fun q => (hsame' q).trans (hsame q)⟩, fun e he => hallowed e (he.congr (hsame ⟨id, _⟩))⟩
    · exact h.imp_left fun ⟨e, ho, he⟩ => ⟨e, ho, he.congr (hsame ⟨id, _⟩).symm⟩
  refine (wp_forM_first _ hround ⟨hs, hv, fun _ => rfl⟩).mono (fun _ _ h => h) fun f _ h => ?_
  obtain ⟨ps, p, qs, t, hsplit, hps, hstop⟩ := h
  obtain ⟨hstart, hlt, hbefore⟩ := run_take_of_split hs hv hsplit hps
  obtain ⟨e, rfl, he⟩ | ⟨page, u, hpage, hwritable, hclaim⟩ := hstop
  · exact .inl ⟨e, rfl, p.start - va.toNat, t, hlt, hbefore, hstart.symm ▸ he⟩
  · exact .inr ⟨p.start - va.toNat, t, u, page, hlt, hbefore, hstart.symm ▸ hpage, hwritable, hstart.symm ▸ hclaim⟩

theorem wp_run_denied (hs : s.WellFormed) (hv : s.view.Sound) (c : UserCopy) :
    wp (c.run id va) s (fun n _ => n = c.count)
      fun f _ => (∃ e, f = .error e ∧ c.Denied id va s e) ∨ c.LoadFails id va s f := by
  have hends := (wp_forM_step hs hv id va c).and (wp_forM_denied hs hv c)
  unfold wp at hends
  split at hends
  next => rw [wp, hends.1]
  next => rw [wp, hends.1]; exact hends.2

/-- The pieces of a copy begin at bytes of the range, and so a copy that reaches its end was allowed. -/
theorem forall_not_denies (sp : Space) (c : UserCopy)
    (h : ∀ p ∈ Piece.run va.toNat c.count, ∀ e, ¬ sp.Denies c.isWrite p.start e) :
    ∀ n < c.count, ∀ e, ¬ sp.Denies c.isWrite (va.toNat + n) e := by
  intro n hn
  obtain ⟨p, hp, hlow, hhigh⟩ := Piece.exists_mem_run va.toNat hn
  have hdown := Piece.pageDown_eq (Piece.of_mem_run hp).2.2.2 hlow hhigh
  obtain ⟨huser, page, hpage, hwritable⟩ := Space.not_denies_iff.1 (h p hp)
  have huser' : (⟨va.toNat + n⟩ : VirtAddr).toNat < kernelBase := by
    refine VirtAddr.lt_kernelBase ?_
    rw [hdown]
    exact Nat.lt_of_le_of_lt (Nat.div_mul_le_self ..) huser
  exact Space.not_denies_iff.2 ⟨huser', page, by rw [Space.page?_eq_of_pageDown hdown, hpage], hwritable⟩

end UserCopy

/-- Checks a range of user memory. -/
def Paging.checkRange (id : SpaceId) (start limit : VirtAddr) (write : Bool) : Paging Bool :=
  return (← Paging.space id).allows start limit write

namespace System

variable {s : System} {id : SpaceId} {va limit : VirtAddr} {c : UserCopy}

/-- What the check of a range, which is accepted or not, has to do with a copy of the range. -/
structure Foretells (s : System) (id : SpaceId) (va : VirtAddr) (c : UserCopy) (accepted : Bool) : Prop where
  /-- The check is about every byte of the range. -/
  checked : accepted = true ↔ ∀ n < c.count, ∀ e, ¬ (s.space id).Denies c.isWrite (va.toNat + n) e
  /-- A range that is accepted is copied whole, or one of its pages cannot be loaded. -/
  copied : accepted = true → (∃ t, c.run id va s = .ok c.count t) ∨
    ∃ f t, c.run id va s = .error f t ∧ c.LoadFails id va s f
  /-- The copy of a range that is not accepted fails where a byte is denied, or where a page cannot be loaded before. -/
  refused : accepted = false → ∃ f t, c.run id va s = .error f t ∧
    ((∃ e, f = .error e ∧ c.Denied id va s e) ∨ c.LoadFails id va s f)
  /-- As long as pages can be loaded, the check and the copy agree. -/
  agrees : (∀ f, ¬ c.LoadFails id va s f) → (accepted = true ↔ ∃ t, c.run id va s = .ok c.count t)

/-- The check of a range leaves everything as it is, and foretells how a copy of the range ends. -/
theorem Reachable.check_foretells_copy (hs : s.Reachable) (id : SpaceId) (va : VirtAddr) (c : UserCopy)
    (hlimit : va.add c.count = .ok limit) :
    Paging.checkRange id va limit c.isWrite s = .ok ((s.space id).allows va limit c.isWrite) s ∧
      s.Foretells id va c ((s.space id).allows va limit c.isWrite) := by
  obtain ⟨-, rfl⟩ := VirtAddr.add_eq_ok_iff.1 hlimit
  have hchecked : (s.space id).allows va ⟨va.toNat + c.count⟩ c.isWrite = true ↔
      ∀ n < c.count, ∀ e, ¬ (s.space id).Denies c.isWrite (va.toNat + n) e := Space.allows_iff
  have hends := (UserCopy.wp_forM_step hs.wellFormed hs.sound id va c).and
    (UserCopy.wp_forM_denied hs.wellFormed hs.sound c)
  have hcopy : (∃ t, c.run id va s = .ok c.count t ∧ (s.space id).allows va ⟨va.toNat + c.count⟩ c.isWrite = true) ∨
      ∃ f t, c.run id va s = .error f t ∧ ((∃ e, f = .error e ∧ c.Denied id va s e) ∨ c.LoadFails id va s f) := by
    unfold Paging.wp at hends
    split at hends
    next t _ => exact .inl ⟨t, hends.1, hchecked.2 (UserCopy.forall_not_denies _ c hends.2)⟩
    next f t _ => exact .inr ⟨f, t, hends⟩
  have hnotDenied (hallowed : (s.space id).allows va ⟨va.toNat + c.count⟩ c.isWrite = true) (e : Errno) :
      ¬ c.Denied id va s e := fun ⟨n, _, hn, _, hdenies⟩ => hchecked.1 hallowed n hn e hdenies
  refine ⟨rfl, hchecked, fun hallowed => ?_, fun hrefused => ?_, fun hloads => ⟨fun hallowed => ?_, ?_⟩⟩
  · obtain ⟨t, hrun, -⟩ | ⟨f, t, hrun, ⟨e, -, hdenied⟩ | hfails⟩ := hcopy
    · exact .inl ⟨t, hrun⟩
    · exact absurd hdenied (hnotDenied hallowed e)
    · exact .inr ⟨f, t, hrun, hfails⟩
  · obtain ⟨t, -, hallowed⟩ | hfails := hcopy
    · cases hallowed.symm.trans hrefused
    · exact hfails
  · obtain ⟨t, hrun, -⟩ | ⟨f, t, hrun, ⟨e, -, hdenied⟩ | hfails⟩ := hcopy
    · exact ⟨t, hrun⟩
    · exact absurd hdenied (hnotDenied hallowed e)
    · exact absurd hfails (hloads f)
  · rintro ⟨t, hrun⟩
    obtain ⟨t', -, hallowed⟩ | ⟨f, t', hrun', -⟩ := hcopy
    · exact hallowed
    · cases hrun.symm.trans hrun'

/-- Two pages that need the only frame, and the second one is read-only. -/
def halfWritable : System := (small {}).after
  [.create, .addPage 0 .anon ⟨0x1000⟩ true .zero, .addPage 0 .anon ⟨0x2000⟩ false .zero]

/-- A range that reaches into the second page can be read, though the first one makes way on the way, and not written. -/
theorem exists_foretold_copies : ∃ (s : System) (va limit : VirtAddr), s.Reachable ∧ va.add 4 = .ok limit ∧
    (s.space 0).allows va limit false = true ∧ s.Foretells 0 va (.read 4) true ∧
    (∃ t, (UserCopy.read 4).run 0 va s = .ok 4 t) ∧ (s.space 0).allows va limit true = false ∧
    s.Foretells 0 va (.write [1, 2, 3, 4]) false ∧
    ∃ t, (UserCopy.write [1, 2, 3, 4]).run 0 va s = .error (.error .invalidAccess) t := by
  have hs : halfWritable.Reachable := (Reachable.initial (initial_small {})).after (by decide +kernel)
  have hreadable : (halfWritable.space 0).allows ⟨0x1ffe⟩ ⟨0x2002⟩ false = true := by decide +kernel
  have hdenied : (halfWritable.space 0).allows ⟨0x1ffe⟩ ⟨0x2002⟩ true = false := by decide +kernel
  have hlimit : (⟨0x1ffe⟩ : VirtAddr).add 4 = .ok ⟨0x2002⟩ := rfl
  have hread := (Reachable.check_foretells_copy hs 0 ⟨0x1ffe⟩ (.read 4) hlimit).2
  have hwrite := (Reachable.check_foretells_copy hs 0 ⟨0x1ffe⟩ (.write [1, 2, 3, 4]) hlimit).2
  exact ⟨halfWritable, ⟨0x1ffe⟩, ⟨0x2002⟩, hs, rfl, hreadable, hreadable ▸ hread, exists_of_result (by decide +kernel),
    hdenied, hdenied ▸ hwrite, exists_of_errno (by decide +kernel)⟩

end System

end DemandPaging
