import DemandPaging.Proofs.Composition
import DemandPaging.Proofs.Requests

/-!
Errors that devices return. When a request of many sectors or blocks fails with an error that tells of a lack of memory
or space, the disk or the file has returned this error to the request of one of them.
-/

namespace DemandPaging

namespace File

/-- On the way from `f` to `f'` the file returned `e` to a request for one of its blocks. -/
def Returned (f f' : File) (e : Errno) : Prop :=
  ∃ b before after, f.Served before ∧ readBlock b before = .error e after ∧ after.Served f'

variable {f f' f'' : File} {e : Errno}

theorem Returned.of_served (h : f.Served f') (h' : f'.Returned f'' e) : f.Returned f'' e := by
  obtain ⟨b, before, after, hbefore, hread, hafter⟩ := h'
  exact ⟨b, before, after, h.trans hbefore, hread, hafter⟩

theorem Returned.served (h : f.Returned f' e) (h' : f'.Served f'') : f.Returned f'' e := by
  obtain ⟨b, before, after, hbefore, hread, hafter⟩ := h
  exact ⟨b, before, after, hbefore, hread, hafter.trans h'⟩

theorem readPieces_returned (ps : List Piece) (f : File) (h : (readPieces ps f).1.failure = some (.error e)) :
    f.Returned (readPieces ps f).2 e := by
  induction ps generalizing f with
  | nil => cases h
  | cons p ps ih =>
    have hread := readBlock_served p.page f
    unfold readPieces at h ⊢
    cases hresult : readBlock p.page f with
    | error e' f' =>
      simp only [hresult] at h ⊢
      obtain rfl : e' = e := by simpa [Transfer.stopped] using h
      exact ⟨p.page, f, f', .refl f, hresult, .refl f'⟩
    | ok content f' =>
      simp only [hresult] at hread h ⊢
      cases content with
      | none => cases h
      | some content => exact (ih f' h).of_served hread

/-- A read that fails with an error was refused a block. -/
theorem read_returned {position count : Nat} (h : (read position count f).1.failure = some (.error e)) :
    f.Returned (read position count f).2 e := by
  unfold read at h ⊢
  split
  next hlimit => simp [hlimit, Transfer.stopped] at h
  next hlimit =>
    simp only [hlimit] at h
    exact readPieces_returned _ f h

theorem read_of_empty {position count : Nat} (hdata : f.data = []) :
    (read position count f).1.failure ≠ some (.error e) := by
  unfold read
  split
  · simp [Transfer.stopped]
  next limit _ =>
    have hsize : min f.size limit - position = 0 := by simp [size, hdata]
    rw [hsize]
    intro h
    cases h

end File

namespace Disk

variable {d d' d'' : Disk} {e : Errno} {α β : Type}

/-- On the way from `d` to `d'` the disk returned `e` to a request for one of its sectors. -/
def Returned (d d' : Disk) (e : Errno) : Prop :=
  ∃ n before after, d.Served before ∧ n < before.sectorCount ∧
    (read n before = .error e after ∨ ∃ content, write n content before = .error e after) ∧ after.Served d'

theorem Returned.of_served (h : d.Served d') (h' : d'.Returned d'' e) : d.Returned d'' e := by
  obtain ⟨n, before, after, hbefore, hrequest⟩ := h'
  exact ⟨n, before, after, h.trans hbefore, hrequest⟩

theorem Returned.served (h : d.Returned d' e) (h' : d'.Served d'') : d.Returned d'' e := by
  obtain ⟨n, before, after, hbefore, hn, hrequest, hafter⟩ := h
  exact ⟨n, before, after, hbefore, hn, hrequest, hafter.trans h'⟩

/-- What `x` does to a disk are requests, and one of them was returned the error with which `x` fails, unless this tells
of no lack of memory or space. -/
structure Requests (x : EStateM Errno Disk α) : Prop where
  ok : ∀ {d a d'}, x d = .ok a d' → d.Served d'
  error : ∀ {d e d'}, x d = .error e d' → d.Served d' ∧ (e.IsPlain ∨ d.Returned d' e)

namespace Requests

theorem pure (a : α) : Requests (Pure.pure a : EStateM Errno Disk α) where
  ok h := by cases h; exact .refl _
  error h := by cases h

theorem bind {x : EStateM Errno Disk α} {g : α → EStateM Errno Disk β} (hx : Requests x) (hg : ∀ a, Requests (g a)) :
    Requests (x >>= g) where
  ok {d b d''} h := by
    simp only [Bind.bind, EStateM.bind] at h
    cases hresult : x d with
    | error e d' => simp only [hresult, reduceCtorEq] at h
    | ok a d' =>
      simp only [hresult] at h
      exact (hx.ok hresult).trans ((hg a).ok h)
  error {d e d''} h := by
    simp only [Bind.bind, EStateM.bind] at h
    cases hresult : x d with
    | error e' d' =>
      simp only [hresult, EStateM.Result.error.injEq] at h
      obtain ⟨rfl, rfl⟩ := h
      exact hx.error hresult
    | ok a d' =>
      simp only [hresult] at h
      obtain ⟨hserved, hreturned⟩ := (hg a).error h
      exact ⟨(hx.ok hresult).trans hserved, hreturned.imp_right (.of_served (hx.ok hresult))⟩

theorem forM {ι : Type} {g : ι → EStateM Errno Disk Unit} (hg : ∀ i, Requests (g i)) (is : List ι) :
    Requests (is.forM g) := by
  induction is with
  | nil => exact .pure ()
  | cons i is ih => exact (hg i).bind fun _ => ih

/-- A request for a sector that there is not fails with an error of its own. -/
theorem of_request {x : EStateM Errno Disk α} {n : Nat} (hok : ∀ {d a d'}, x d = .ok a d' → d.Served d')
    (herror : ∀ {d e d'}, x d = .error e d' → d.Served d')
    (hmissing : ∀ {d}, d.sectorCount ≤ n → x d = .error .ioError d)
    (hrequest : ∀ {d e d'}, x d = .error e d' →
      Disk.read n d = .error e d' ∨ ∃ content, Disk.write n content d = .error e d') : Requests x where
  ok := hok
  error {d e d'} h := by
    refine ⟨herror h, ?_⟩
    by_cases hcount : d.sectorCount ≤ n
    · have hmiss := (hmissing hcount).symm.trans h
      rw [EStateM.Result.error.injEq] at hmiss
      exact .inl (hmiss.1 ▸ ⟨Errno.noConfusion, Errno.noConfusion⟩)
    · exact .inr ⟨n, d, d', .refl d, Nat.lt_of_not_le hcount, hrequest h, .refl d'⟩

theorem read (n : Nat) : Requests (Disk.read n) := by
  refine of_request (n := n) (fun {d a d'} h => ?_) (fun {d e d'} h => ?_) (fun {d} hcount => ?_) .inl
  · have hread := read_served n d
    rwa [h] at hread
  · have hread := read_served n d
    rw [h] at hread
    exact hread.1
  · simp only [Disk.read, Bind.bind, EStateM.bind, get_apply, throw_apply, hcount, ↓reduceIte]

theorem write (n : Nat) (content : SectorContent) : Requests (Disk.write n content) := by
  refine of_request (n := n) (fun {d a d'} h => ?_) (fun {d e d'} h => ?_) (fun {d} hcount => ?_) fun h =>
    .inr ⟨content, h⟩
  · have hwrite := write_served n content d
    rwa [h] at hwrite
  · have hwrite := write_served n content d
    rw [h] at hwrite
    exact hwrite.1
  · simp only [Disk.write, Bind.bind, EStateM.bind, get_apply, throw_apply, hcount, ↓reduceIte]

end Requests

end Disk

namespace SwapDevice

variable {t t' t'' : SwapDevice} {e : Errno} {α : Type}

/-- The disk under `t'` is the one under `t` after some requests. -/
def Served (t t' : SwapDevice) : Prop := Option.Rel Disk.Served t.disk t'.disk

/-- On the way from `t` to `t'` the disk returned `e`. -/
def Returned (t t' : SwapDevice) (e : Errno) : Prop := ∃ d d', t.disk = some d ∧ t'.disk = some d' ∧ d.Returned d' e

theorem Served.of_disk (h : t'.disk = t.disk) : t.Served t' := by
  unfold Served
  rw [h]
  cases t.disk with
  | none => exact .none
  | some d => exact .some (.refl d)

theorem Served.trans (h : t.Served t') (h' : t'.Served t'') : t.Served t'' := by
  unfold Served at *
  generalize t.disk = a, t'.disk = b, t''.disk = c at *
  cases h with
  | none => exact h'
  | some h =>
    cases h' with
    | some h' => exact .some (h.trans h')

theorem Returned.of_served (h : t.Served t') (h' : t'.Returned t'' e) : t.Returned t'' e := by
  obtain ⟨d', d'', hd', hd'', hreturned⟩ := h'
  unfold Served at h
  generalize hd : t.disk = a, t'.disk = b at h hd'
  subst hd'
  cases h with
  | some h => exact ⟨_, d'', hd, hd'', hreturned.of_served h⟩

theorem Returned.served (h : t.Returned t' e) (h' : t'.Served t'') : t.Returned t'' e := by
  obtain ⟨d, d', hd, hd', hreturned⟩ := h
  unfold Served at h'
  generalize t'.disk = b, hd'' : t''.disk = c at h' hd'
  subst hd'
  cases h' with
  | some h' => exact ⟨d, _, hd, hd'', hreturned.served h'⟩

/-- What the device does to its disk are requests, and one of them was returned the error with which it fails, unless
this tells of no lack of memory or space, or there is no disk. -/
structure Requests (x : EStateM Errno SwapDevice α) : Prop where
  ok : ∀ {t a t'}, x t = .ok a t' → t.Served t'
  error : ∀ {t e t'}, x t = .error e t' → t.Served t' ∧ (t.disk = none ∨ e.IsPlain ∨ t.Returned t' e)

theorem served_of_disk {d d' : Disk} (hdisk : t.disk = some d) (h : d.Served d') (slots : IndexPool) :
    t.Served ⟨some d', slots⟩ := by
  unfold Served
  rw [hdisk]
  exact .some h

theorem Requests.onDisk {x : EStateM Errno Disk α} (hx : Disk.Requests x) : Requests (onDisk x) where
  ok {t a t'} h := by
    unfold SwapDevice.onDisk at h
    cases hdisk : t.disk with
    | none => simp only [hdisk, reduceCtorEq] at h
    | some d =>
      cases hresult : x d with
      | error e d' => simp only [hdisk, hresult, reduceCtorEq] at h
      | ok b d' =>
        simp only [hdisk, hresult, EStateM.Result.ok.injEq] at h
        exact h.2 ▸ served_of_disk hdisk (hx.ok hresult) _
  error {t e t'} h := by
    unfold SwapDevice.onDisk at h
    cases hdisk : t.disk with
    | none =>
      simp only [hdisk, EStateM.Result.error.injEq] at h
      exact ⟨.of_disk (h.2 ▸ rfl), .inl rfl⟩
    | some d =>
      cases hresult : x d with
      | ok b d' => simp only [hdisk, hresult, reduceCtorEq] at h
      | error e' d' =>
        simp only [hdisk, hresult, EStateM.Result.error.injEq] at h
        obtain ⟨rfl, rfl⟩ := h
        obtain ⟨hserved, hreturned⟩ := hx.error hresult
        exact ⟨served_of_disk hdisk hserved _, .inr (hreturned.imp_right fun h => ⟨d, d', hdisk, rfl, h⟩)⟩

theorem Requests.write (slot : SwapSlot) (content : PageContent) : Requests (SwapDevice.write slot content) :=
  .onDisk (.forM (fun i => .write (slot.sector + i) (sectorOf content i)) _)

theorem Requests.copy (source target : SwapSlot) : Requests (SwapDevice.copy source target) :=
  .onDisk (.forM (fun i => (Disk.Requests.read (source.sector + i)).bind fun content =>
    .write (target.sector + i) content) _)

theorem readSectors_returned (ns : List Nat) (d : Disk) :
    d.Served (readSectors ns d).2 ∧
      ∀ e, (readSectors ns d).1.failure = some (.error e) → e.IsPlain ∨ d.Returned (readSectors ns d).2 e := by
  induction ns generalizing d with
  | nil => exact ⟨.refl d, fun e h => by cases h⟩
  | cons n ns ih =>
    have hread := Disk.Requests.read n
    unfold readSectors
    cases hresult : Disk.read n d with
    | error e d' =>
      obtain ⟨hserved, hreturned⟩ := hread.error hresult
      refine ⟨hserved, fun e' he' => ?_⟩
      obtain rfl : e = e' := by simpa [Transfer.stopped] using he'
      exact hreturned
    | ok content d' =>
      obtain ⟨hserved, hreturned⟩ := ih d'
      exact ⟨(hread.ok hresult).trans hserved, fun e he => (hreturned e he).imp_right (.of_served (hread.ok hresult))⟩

theorem read_returned (slot : SwapSlot) (t : SwapDevice) :
    t.Served (read slot t).2 ∧ ∀ e, (read slot t).1.failure = some (.error e) →
      t.disk = none ∨ e.IsPlain ∨ t.Returned (read slot t).2 e := by
  unfold read
  cases hdisk : t.disk with
  | none => exact ⟨.of_disk rfl, fun _ _ => .inl rfl⟩
  | some d =>
    obtain ⟨hserved, hreturned⟩ := readSectors_returned ((List.range sectorsPerPage).map (slot.sector + ·)) d
    exact ⟨served_of_disk hdisk hserved _, fun e he => .inr ((hreturned e he).imp_right fun h => ⟨d, _, hdisk, rfl, h⟩)⟩

theorem disk_of_alloc? {slot : SwapSlot} (h : t.alloc? = some (slot, t')) : t'.disk = t.disk := by
  obtain ⟨_, _, hfound⟩ := Option.map_eq_some_iff.1 h
  rw [Prod.mk.injEq] at hfound
  rw [← hfound.2]

theorem served_of_duplicate {slot target : SwapSlot} (h : duplicate slot t = .ok target t') : t.Served t' := by
  unfold duplicate at h
  cases halloc : t.alloc? with
  | none => simp only [halloc, reduceCtorEq] at h
  | some found =>
    obtain ⟨target', t₁⟩ := found
    have hserved : t.Served t₁ := .of_disk (disk_of_alloc? halloc)
    cases hresult : copy slot target' t₁ with
    | error e t₂ => simp only [halloc, hresult, reduceCtorEq] at h
    | ok u t₂ =>
      simp only [halloc, hresult, EStateM.Result.ok.injEq] at h
      exact h.2 ▸ hserved.trans ((Requests.copy slot target').ok hresult)

/-- A copy of a slot fails for lack of space only if there is no free slot, or no disk, or the disk says so. -/
theorem returned_of_duplicate {slot : SwapSlot} (h : duplicate slot t = .error e t') :
    t.Served t' ∧ (t.alloc? = none ∨ t.disk = none ∨ e.IsPlain ∨ t.Returned t' e) := by
  unfold duplicate at h
  cases halloc : t.alloc? with
  | none =>
    simp only [halloc, EStateM.Result.error.injEq] at h
    exact ⟨.of_disk (h.2 ▸ rfl), .inl rfl⟩
  | some found =>
    obtain ⟨target, t₁⟩ := found
    have hdisk := disk_of_alloc? halloc
    have hserved : t.Served t₁ := .of_disk hdisk
    cases hresult : copy slot target t₁ with
    | ok u t₂ => simp only [halloc, hresult, reduceCtorEq] at h
    | error e' t₂ =>
      simp only [halloc, hresult, EStateM.Result.error.injEq] at h
      obtain ⟨rfl, rfl⟩ := h
      obtain ⟨hserved', hreturned⟩ := (Requests.copy slot target).error hresult
      refine ⟨hserved.trans hserved', .inr (hreturned.imp (fun h => hdisk ▸ h) (.imp_right fun h => ?_))⟩
      exact h.of_served hserved

end SwapDevice

end DemandPaging
