import DemandPaging.System
import DemandPaging.Proofs.PageTable

/-!
Weakest preconditions of paging actions. An action can end with a result or with a failure, and both ends leave a
system behind, so a postcondition has one part for each. The rules for the elementary steps are simplification
lemmas: they reduce the precondition of a whole action to facts about systems.
-/

namespace DemandPaging.Paging

variable {α β : Type}

/-- The action `x`, started in `s`, ends with a result and a system that satisfy `Q`, or with a failure and a
system that satisfy `E`. -/
def wp (x : Paging α) (s : System) (Q : α → System → Prop) (E : Failure → System → Prop) : Prop :=
  match x s with
  | .ok a t => Q a t
  | .error f t => E f t

variable {s : System} {Q : α → System → Prop} {E : Failure → System → Prop}

theorem wp.of_ok {x : Paging α} {a : α} {t : System} (h : wp x s Q E) (hx : x s = .ok a t) : Q a t := by
  simpa [wp, hx] using h

theorem wp.of_error {x : Paging α} {f : Failure} {t : System} (h : wp x s Q E) (hx : x s = .error f t) : E f t := by
  simpa [wp, hx] using h

theorem wp.exists_ok {x : Paging α} (h : wp x s Q fun _ _ => False) : ∃ a t, x s = .ok a t ∧ Q a t := by
  unfold wp at h
  cases hx : x s with
  | ok a t =>
    rw [hx] at h
    exact ⟨a, t, rfl, h⟩
  | error f t =>
    rw [hx] at h
    exact h.elim

theorem wp.mono {x : Paging α} {Q' : α → System → Prop} {E' : Failure → System → Prop} (h : wp x s Q E)
    (hQ : ∀ a t, Q a t → Q' a t) (hE : ∀ f t, E f t → E' f t) : wp x s Q' E' := by
  unfold wp at *
  split <;> simp_all

theorem wp.and {x : Paging α} {Q' : α → System → Prop} {E' : Failure → System → Prop} (h : wp x s Q E)
    (h' : wp x s Q' E') : wp x s (fun a t => Q a t ∧ Q' a t) (fun f t => E f t ∧ E' f t) := by
  unfold wp at *
  split <;> simp_all

/-- What is to hold of the end of an action is a precondition. -/
theorem wp_end {x : Paging α} {P : EStateM.Result Failure System α → Prop} :
    wp x s (fun a t => P (.ok a t)) (fun f t => P (.error f t)) ↔ P (x s) := by
  unfold wp
  cases x s <;> rfl

theorem wp_self (x : Paging α) : wp x s (fun a t => x s = .ok a t) fun f t => x s = .error f t := wp_end.2 rfl

theorem wp.of_forall {x : Paging α} (hQ : ∀ a t, Q a t) (hE : ∀ f t, E f t) : wp x s Q E := by
  unfold wp
  split
  · exact hQ _ _
  · exact hE _ _

@[simp] theorem wp_pure (a : α) : wp (pure a) s Q E ↔ Q a s := Iff.rfl

@[simp] theorem wp_bind (x : Paging α) (g : α → Paging β) {Q : β → System → Prop} :
    wp (x >>= g) s Q E ↔ wp x s (fun a t => wp (g a) t Q E) E := by
  simp only [wp, bind, EStateM.bind]
  cases x s <;> rfl

@[simp] theorem wp_map (g : α → β) (x : Paging α) {Q : β → System → Prop} :
    wp (g <$> x) s Q E ↔ wp x s (fun a t => Q (g a) t) E := by
  simp only [wp, Functor.map, EStateM.map]
  cases x s <;> rfl

@[simp] theorem wp_get {Q : System → System → Prop} : wp get s Q E ↔ Q s s := Iff.rfl

@[simp] theorem wp_modify (g : System → System) {Q : PUnit → System → Prop} :
    wp (modify g) s Q E ↔ Q ⟨⟩ (g s) := Iff.rfl

@[simp] theorem wp_throw (f : Failure) : wp (throw f : Paging α) s Q E ↔ E f s := Iff.rfl

@[simp] theorem wp_fail (e : Errno) : wp (fail e : Paging α) s Q E ↔ E (.error e) s := Iff.rfl

@[simp] theorem wp_panic (p : Panic) : wp (panic p : Paging α) s Q E ↔ E (.panic p) s := Iff.rfl

@[simp] theorem wp_attempt (x : Paging α) {Q : Except Failure α → System → Prop} :
    wp (attempt x) s Q E ↔ wp x s (fun a t => Q (.ok a) t) (fun f t => Q (.error f) t) := by
  simp only [wp, attempt]
  cases x s <;> rfl

/-- Where ordinary errors are caught, only a panic is passed on. -/
@[simp] theorem wp_caught (x : Paging α) {Q : Except Errno α → System → Prop} :
    wp (caught x) s Q E ↔ wp x s (fun a t => Q (.ok a) t)
      (fun f t => match f with
        | .error e => Q (.error e) t
        | .panic p => E (.panic p) t) := by
  simp only [wp, caught]
  cases x s with
  | ok a t => rfl
  | error f t => cases f <;> rfl

@[simp] theorem wp_orUndo (x : Paging α) (undo : Paging Unit) :
    wp (orUndo x undo) s Q E ↔ wp x s Q
      (fun f t => match f with
        | .error e => wp undo t (fun _ u => E (.error e) u) E
        | .panic p => E (.panic p) t) := by
  simp only [orUndo, wp_bind, wp_caught, wp_pure, wp_fail]

/-- An action that can be undone is looked at where it ends well. -/
theorem wp.orUndo {x : Paging α} (h : wp x s Q fun _ _ => True) (undo : Paging Unit) :
    wp (orUndo x undo) s Q fun _ _ => True := by
  rw [wp_orUndo]
  refine h.mono (fun _ _ h => h) fun f t _ => ?_
  cases f with
  | error e => exact wp.of_forall (fun _ _ => trivial) fun _ _ => trivial
  | panic p => trivial

/-- Where two actions one after the other end with a result, so does each of them. -/
theorem exists_of_bind_eq_ok {x : Paging α} {f : α → Paging β} {b : β} {t : System} (h : (x >>= f) s = .ok b t) :
    ∃ a u, x s = .ok a u ∧ f a u = .ok b t := by
  simp only [bind, EStateM.bind] at h
  cases hx : x s with
  | ok a u =>
    rw [hx] at h
    exact ⟨a, u, rfl, h⟩
  | error e u =>
    rw [hx] at h
    cases h

theorem bind_eq_of_eq_ok {x : Paging α} {a : α} {t : System} (h : x s = .ok a t) (f : α → Paging β) :
    (x >>= f) s = f a t := by
  simp only [bind, EStateM.bind, h]

theorem pager_bind (f : Pager → Paging α) (s : System) : (pager >>= f) s = f s.pager s := rfl

theorem space_bind (id : SpaceId) (f : Space → Paging α) (s : System) : (space id >>= f) s = f (s.space id) s := rfl

theorem bind_eq_of_eq_error {x : Paging α} {e : Failure} {t : System} (h : x s = .error e t) (f : α → Paging β) :
    (x >>= f) s = .error e t := by
  simp only [bind, EStateM.bind, h]

theorem attempt_of_eq_ok {x : Paging α} {a : α} {t : System} (h : x s = .ok a t) : attempt x s = .ok (.ok a) t := by
  rw [attempt, h]

theorem attempt_of_eq_error {x : Paging α} {f : Failure} {t : System} (h : x s = .error f t) :
    attempt x s = .ok (.error f) t := by
  rw [attempt, h]

theorem caught_of_eq_ok {x : Paging α} {a : α} {t : System} (h : x s = .ok a t) : caught x s = .ok (.ok a) t := by
  rw [caught, h]

theorem caught_of_eq_error {x : Paging α} {e : Errno} {t : System} (h : x s = .error (.error e) t) :
    caught x s = .ok (.error e) t := by
  rw [caught, h]

theorem word_ok_bind (a : α) (f : α → Paging β) : (word (.ok a) >>= f) = f a := rfl

/-- The page table that an address space has takes its own place. -/
theorem modify_table_self (id : SpaceId) (s : System) :
    { s with spaces := s.spaces.modify id fun sp => { sp with table := (s.space id).table } } = s := by
  have hsame : s.spaces.modify id (fun sp => { sp with table := (s.space id).table }) = s.spaces := by
    refine Std.ExtTreeMap.ext_getElem? fun id' => ?_
    rw [Std.ExtTreeMap.getElem?_modify]
    split
    next heq =>
      obtain rfl := Std.compare_eq_iff_eq.1 heq
      cases hsp : s.spaces[id]? with
      | none => rfl
      | some sp => rw [World.space, hsp]; rfl
    next => rfl
  rw [hsame]

theorem request_eq {id : SpaceId} (ht : (s.space id).table.Willing) (x : PageTable → Except MappingError PageTable) :
    request id x s = match x (s.space id).table with
      | .ok u => .ok (.ok ()) { s with spaces := s.spaces.modify id fun sp => { sp with table := u } }
      | .error e => .ok (.error e) s := by
  change EStateM.Result.ok ((s.space id).table.request x).1
    { s with spaces := s.spaces.modify id fun sp => { sp with table := ((s.space id).table.request x).2 } } = _
  rw [ht.request_eq]
  cases x (s.space id).table with
  | ok u => rfl
  | error e => rw [modify_table_self]

theorem request_of_ok {id : SpaceId} (ht : (s.space id).table.Willing) {x : PageTable → Except MappingError PageTable}
    {u : PageTable} (hx : x (s.space id).table = .ok u) :
    request id x s = .ok (.ok ()) { s with spaces := s.spaces.modify id fun sp => { sp with table := u } } := by
  rw [request_eq ht, hx]

theorem request_of_error {id : SpaceId} (ht : (s.space id).table.Willing)
    {x : PageTable → Except MappingError PageTable} {e : MappingError} (hx : x (s.space id).table = .error e) :
    request id x s = .ok (.error e) s := by
  rw [request_eq ht, hx]

/-- Where no script is followed, a request is done or refused as the table says. -/
theorem wp_request_of_ok {id : SpaceId} (ht : (s.space id).table.Willing)
    {x : PageTable → Except MappingError PageTable} {u : PageTable} (hx : x (s.space id).table = .ok u)
    {Q : Except MappingError Unit → System → Prop} (h : wp (setTable id u) s (fun _ => Q (.ok ())) E) :
    wp (request id x) s Q E := by
  rw [wp, request_of_ok ht hx]
  exact h

theorem wp_request_of_error {id : SpaceId} (ht : (s.space id).table.Willing)
    {x : PageTable → Except MappingError PageTable} {e : MappingError} (hx : x (s.space id).table = .error e)
    {Q : Except MappingError Unit → System → Prop} (h : Q (.error e) s) : wp (request id x) s Q E := by
  rw [wp, request_of_error ht hx]
  exact h

@[simp] theorem wp_pager {Q : Pager → System → Prop} : wp pager s Q E ↔ Q s.pager s := Iff.rfl

@[simp] theorem wp_space (id : SpaceId) {Q : Space → System → Prop} :
    wp (space id) s Q E ↔ Q (s.space id) s := Iff.rfl

@[simp] theorem wp_file (id : FileId) {Q : File → System → Prop} :
    wp (file id) s Q E ↔ Q (s.file id) s := Iff.rfl

@[simp] theorem wp_frame (pa : PhysAddr) {Q : Option PageContent → System → Prop} :
    wp (frame pa) s Q E ↔ Q (s.pager.pool.content? pa) s := Iff.rfl

@[simp] theorem wp_note (e : Event) {Q : Unit → System → Prop} :
    wp (note e) s Q E ↔ Q () { s with log := s.log.push e } := Iff.rfl

@[simp] theorem wp_modifyPager (g : Pager → Pager) {Q : Unit → System → Prop} :
    wp (modifyPager g) s Q E ↔ Q () { s with pager := g s.pager } := Iff.rfl

@[simp] theorem wp_modifySpace (id : SpaceId) (g : Space → Space) {Q : Unit → System → Prop} :
    wp (modifySpace id g) s Q E ↔ Q () { s with spaces := s.spaces.modify id g } := Iff.rfl

@[simp] theorem wp_request (id : SpaceId) (x : PageTable → Except MappingError PageTable)
    {Q : Except MappingError Unit → System → Prop} :
    wp (request id x) s Q E ↔ Q ((s.space id).table.request x).1
      { s with spaces := s.spaces.modify id fun sp => { sp with table := ((s.space id).table.request x).2 } } := Iff.rfl

@[simp] theorem wp_word_ok (a : α) : wp (word (.ok a)) s Q E ↔ Q a s := Iff.rfl

@[simp] theorem wp_word_error (o : Overflow) :
    wp (word (.error o) : Paging α) s Q E ↔ E (.panic (.overflow o)) s := Iff.rfl

@[simp] theorem wp_mapping_ok (a : α) : wp (mapping (.ok a)) s Q E ↔ Q a s := Iff.rfl

@[simp] theorem wp_mapping_error (e : MappingError) :
    wp (mapping (.error e) : Paging α) s Q E ↔ E (.error e.toErrno) s := Iff.rfl

/-- An action that runs on one file succeeds or fails as that does. -/
@[simp] theorem wp_onFile (id : FileId) (x : EStateM Failure File α) :
    wp (onFile id x) s Q E ↔
      match x (s.file id) with
      | .ok a f => Q a { s with files := s.files.setIfInBounds id f }
      | .error e f => E e { s with files := s.files.setIfInBounds id f } := by
  simp only [wp, onFile]
  cases x (s.file id) <;> rfl

@[simp] theorem wp_onSwapDevice (x : EStateM Errno SwapDevice α) :
    wp (onSwapDevice x) s Q E ↔
      match x s.pager.swap with
      | .ok a t => Q a { s with pager := { s.pager with swap := t } }
      | .error e t => E (.error e) { s with pager := { s.pager with swap := t } } := by
  simp only [wp, onSwapDevice]
  cases x s.pager.swap <;> rfl

@[simp] theorem wp_ite (c : Prop) [Decidable c] (x y : Paging α) :
    wp (if c then x else y) s Q E ↔ if c then wp x s Q E else wp y s Q E := by
  split <;> rfl

end DemandPaging.Paging
