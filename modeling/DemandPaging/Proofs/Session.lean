/-!
Machines that answer requests, one after the other. What ties two machines together at every answer ties them together
for a whole session, and where every answer follows a rule, so does the session.
-/

namespace DemandPaging

variable {σ τ ι ρ : Type}

/-- The replies to the requests, each in the state that the reply before left behind, and the state at the end. -/
def session (answer : σ → ι → ρ × σ) : σ → List ι → List ρ × σ
  | s, [] => ([], s)
  | s, i :: is =>
    let (r, s) := answer s i
    let (rs, s) := session answer s is
    (r :: rs, s)

/-- The requests are replied to as `rule` says, each in the state that the reply before left behind. -/
inductive Obeys (rule : τ → ι → ρ → τ → Prop) : τ → List ι → List ρ → τ → Prop
  | nil (t : τ) : Obeys rule t [] [] t
  | cons {t t' u : τ} {i : ι} {is : List ι} {r : ρ} {rs : List ρ} (h : rule t i r t') (hrest : Obeys rule t' is rs u) :
    Obeys rule t (i :: is) (r :: rs) u

/-- What a rule says of every reply holds of all of them. -/
theorem Obeys.forall_reply {rule : τ → ι → ρ → τ → Prop} {P : ρ → Prop} {t u : τ} {is : List ι} {rs : List ρ}
    (h : Obeys rule t is rs u) (hrule : ∀ t i r t', rule t i r t' → P r) : ∀ r ∈ rs, P r := by
  induction h with
  | nil => exact List.forall_mem_nil P
  | cons hnext _ ih => exact List.forall_mem_cons.2 ⟨hrule _ _ _ _ hnext, ih⟩

/-- A session follows the rule that every answer follows, as far as `R` ties the states together. -/
theorem session_obeys {answer : σ → ι → ρ × σ} {rule : τ → ι → ρ → τ → Prop} {R : σ → τ → Prop}
    (hanswer : ∀ s t i, R s t → ∃ t', rule t i (answer s i).1 t' ∧ R (answer s i).2 t') {s : σ} {t : τ} (h : R s t)
    (is : List ι) : ∃ u, Obeys rule t is (session answer s is).1 u ∧ R (session answer s is).2 u := by
  induction is generalizing s t with
  | nil => exact ⟨t, .nil t, h⟩
  | cons i is ih =>
    obtain ⟨t', hrule, ht'⟩ := hanswer s t i h
    obtain ⟨u, hrest, hu⟩ := ih ht'
    exact ⟨u, .cons hrule hrest, hu⟩

/-- Machines that reply alike in tied states reply alike in a whole session. -/
theorem session_eq {answer : σ → ι → ρ × σ} {answer' : τ → ι → ρ × τ} {R : σ → τ → Prop}
    (hanswer : ∀ s t i, R s t → (answer s i).1 = (answer' t i).1 ∧ R (answer s i).2 (answer' t i).2) {s : σ} {t : τ}
    (h : R s t) (is : List ι) :
    (session answer s is).1 = (session answer' t is).1 ∧ R (session answer s is).2 (session answer' t is).2 := by
  induction is generalizing s t with
  | nil => exact ⟨rfl, h⟩
  | cons i is ih =>
    obtain ⟨hreply, hnext⟩ := hanswer s t i h
    obtain ⟨hreplies, hend⟩ := ih hnext
    refine ⟨?_, hend⟩
    simp only [session]
    rw [hreply, hreplies]

end DemandPaging
