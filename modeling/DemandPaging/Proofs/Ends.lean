import DemandPaging.Proofs.Stepwise

/-!
How actions end. From where an action begins it leads along a relation to where it ends; with a failure it ends only
where this failure may be. What is put together from such actions ends so as well.
-/

namespace DemandPaging

namespace Paging

variable {α β : Type} {I : System → Prop} {R : System → System → Prop} {F : System → Failure → System → Prop}
  {s : System}

/-- From a state in `I` the action leads along `R` to one in `I`, however it ends. If it fails, then as `F` says. -/
def Ends (I : System → Prop) (R : System → System → Prop) (F : System → Failure → System → Prop) (x : Paging α) :
    Prop :=
  ∀ s, I s → wp x s (fun _ t => I t ∧ R s t) fun f t => (I t ∧ R s t) ∧ F s f t

/-- From a state in `I` the action leads along `R` to one in `I`, however it ends. -/
def Along (I : System → Prop) (R : System → System → Prop) (x : Paging α) : Prop :=
  ∀ s, I s → wp x s (fun _ t => I t ∧ R s t) fun _ t => I t ∧ R s t

theorem Ends.along {x : Paging α} (h : Ends I R F x) : Along I R x := fun s hs =>
  (h s hs).mono (fun _ _ h => h) fun _ _ h => h.1

theorem ends_true_iff {x : Paging α} : Ends I R (fun _ _ _ => True) x ↔ Along I R x := by
  simp only [Ends, Along, and_true]

/-- Failures are looked at where they happen; what an action did before counts, and what is done after an ordinary error
to undo it does not matter. -/
theorem composable_ends (hrefl : ∀ s, R s s) (htrans : ∀ {s t u}, R s t → R t u → R s u)
    (hnote : ∀ s e, I s → I { s with log := s.log.push e } ∧ R s { s with log := s.log.push e })
    (hplain : ∀ s {e : Errno}, e.IsPlain → F s (.error e) s) (hoverflow : ∀ s o, F s (.panic (.overflow o)) s)
    (hbefore : ∀ {s t u f}, R s t → F t f u → F s f u)
    (hafter : ∀ {s t u e}, F s (.error e) t → R t u → F s (.error e) u) : Composable (Ends I R F) where
  pure _ s hs := ⟨hs, hrefl s⟩
  bind hx hg s hs := by
    rw [wp_bind]
    exact (hx s hs).mono (fun a t ⟨ht, hst⟩ => (hg a t ht).mono (fun _ _ h => ⟨h.1, htrans hst h.2⟩)
      fun _ _ h => ⟨⟨h.1.1, htrans hst h.1.2⟩, hbefore hst h.2⟩) fun _ _ h => h
  attempt hx s hs := by
    rw [wp_attempt]
    exact (hx s hs).mono (fun _ _ h => h) fun _ _ h => h.1
  caught hx s hs := by
    rw [wp_caught]
    refine (hx s hs).mono (fun _ _ h => h) fun f t h => ?_
    cases f with
    | error e => exact h.1
    | panic p => exact h
  orUndo hx hundo s hs := by
    rw [wp_orUndo]
    refine (hx s hs).mono (fun _ _ h => h) fun f t h => ?_
    cases f with
    | error e =>
      exact (hundo t h.1.1).mono (fun _ _ h' => ⟨⟨h'.1, htrans h.1.2 h'.2⟩, hafter h.2 h'.2⟩)
        fun _ _ h' => ⟨⟨h'.1.1, htrans h.1.2 h'.1.2⟩, hbefore h.1.2 h'.2⟩
    | panic p => exact h
  pager s hs := ⟨hs, hrefl s⟩
  file _ s hs := ⟨hs, hrefl s⟩
  note e s hs := hnote s e hs
  fail he s hs := ⟨⟨hs, hrefl s⟩, hplain s he⟩
  overflow o s hs := ⟨⟨hs, hrefl s⟩, hoverflow s o⟩

theorem composable_along (hrefl : ∀ s, R s s) (htrans : ∀ {s t u}, R s t → R t u → R s u)
    (hnote : ∀ s e, I s → I { s with log := s.log.push e } ∧ R s { s with log := s.log.push e }) :
    Composable (Along I R) :=
  (composable_ends (F := fun _ _ _ => True) hrefl htrans hnote (fun _ _ _ => trivial) (fun _ _ => trivial)
    (fun _ _ => trivial) fun _ _ => trivial).congr ends_true_iff

/-- A failure that is looked at and passed on is still the one that it was. -/
theorem ends_reraise (htrans : ∀ {s t u}, R s t → R t u → R s u) (hbefore : ∀ {s t u f}, R s t → F t f u → F s f u)
    (hafter : ∀ {s t u f}, ¬ f.IsShortage → F s f t → R t u → F s f u) {x : Paging α} {k : Except Failure α → Paging β}
    (hx : Ends I R F x) (hshort : NeverShort x) (hok : ∀ a, Ends I R F (k (.ok a)))
    (herror : ∀ f, Raises (Ends I R F) f (k (.error f))) : Ends I R F (attempt x >>= k) := by
  have hraise {s t : System} {f : Failure} {y : Paging β} (hf : ¬ f.IsShortage) (hy : Raises (Ends I R F) f y)
      (ht : I t) (hst : R s t) (hfail : F s f t) :
      wp y t (fun _ u => I u ∧ R s u) fun g u => (I u ∧ R s u) ∧ F s g u := by
    induction hy generalizing t with
    | throw => exact ⟨⟨ht, hst⟩, hfail⟩
    | bind hx _ ih =>
      rw [wp_bind]
      exact (hx t ht).mono (fun a u hu => ih a hu.1 (htrans hst hu.2) (hafter hf hfail hu.2))
        fun _ _ hu => ⟨⟨hu.1.1, htrans hst hu.1.2⟩, hbefore hst hu.2⟩
  intro s hs
  rw [wp_bind, wp_attempt]
  refine ((hx s hs).and (hshort s)).mono (fun a t ht => ?_) fun f t hf =>
    hraise hf.2 (herror f) hf.1.1.1 hf.1.1.2 hf.1.2
  exact (hok a t ht.1.1).mono (fun _ _ h => ⟨h.1, htrans ht.1.2 h.2⟩)
    fun _ _ h => ⟨⟨h.1.1, htrans ht.1.2 h.1.2⟩, hbefore ht.1.2 h.2⟩

/-- A copy out of user memory stops as an access to one of its pages fails. -/
theorem wp_readPieces_ends (hrefl : ∀ s, R s s) (htrans : ∀ {s t u}, R s t → R t u → R s u)
    (hbefore : ∀ {s t u f}, R s t → F t f u → F s f u) {id : SpaceId} {va : VirtAddr} (ps : List Piece)
    (hpiece : ∀ p ∈ ps, Ends I R F (do
      let cur ← userAddr va (p.start - va.toNat)
      withUserPage id cur false fun content => (Content.slice content cur.offset p.length, content)))
    (hs : I s) {E : Failure → System → Prop} : wp (readPieces id va ps) s
      (fun tr t => (I t ∧ R s t) ∧ ∀ f, tr.failure = some f → F s f t) E := by
  induction ps generalizing s with
  | nil => exact ⟨⟨hs, hrefl s⟩, fun f hf => by cases hf⟩
  | cons p ps ih =>
    unfold readPieces
    rw [wp_bind, wp_attempt]
    refine (hpiece p List.mem_cons_self s hs).mono (fun bytes t ht => ?_) fun f t ht => ?_
    · rw [wp_bind]
      refine (ih (fun p hp => hpiece p (List.mem_cons_of_mem _ hp)) ht.1).mono (fun tr u hu => ?_) fun _ _ h => h
      exact ⟨⟨hu.1.1, htrans ht.2 hu.1.2⟩, fun f hf => hbefore ht.2 (hu.2 f hf)⟩
    · exact ⟨ht.1, fun f' hf' => by cases hf'; exact ht.2⟩

end Paging

end DemandPaging
