/-!
Actions with state and failure: what their elementary steps do to a state, and loops over lists, in which what one round
keeps, the whole loop keeps.
-/

namespace DemandPaging

variable {α ε σ : Type}

theorem get_apply (s : σ) : (get : EStateM ε σ σ) s = .ok s s := rfl

theorem set_apply (s t : σ) : (set t : EStateM ε σ PUnit) s = .ok ⟨⟩ t := rfl

theorem throw_apply (e : ε) (s : σ) : (throw e : EStateM ε σ α) s = .error e s := rfl

theorem pure_apply (a : α) (s : σ) : (pure a : EStateM ε σ α) s = .ok a s := rfl

theorem exists_of_result [DecidableEq α] {s : σ} {x : EStateM ε σ α} {a : α} (h : (match x s with
    | .ok b _ => decide (b = a)
    | _ => false) = true) : ∃ t, x s = .ok a t := by
  split at h
  next b t hx => exact ⟨t, by rw [hx, of_decide_eq_true h]⟩
  next => cases h

theorem exists_of_failure [DecidableEq ε] {s : σ} {x : EStateM ε σ α} {e : ε} (h : (match x s with
    | .error e' _ => decide (e' = e)
    | _ => false) = true) : ∃ t, x s = .error e t := by
  split at h
  next e' t hx => exact ⟨t, by rw [hx, of_decide_eq_true h]⟩
  next => cases h

/-- Loops over a list are the same if their rounds are. -/
theorem forM_congr {m : Type → Type} [Monad m] {f g : α → m PUnit} {l : List α} (h : ∀ a ∈ l, f a = g a) :
    l.forM f = l.forM g := by
  induction l with
  | nil => rfl
  | cons a l ih =>
    rw [List.forall_mem_cons] at h
    change (f a >>= fun _ => l.forM f) = (g a >>= fun _ => l.forM g)
    rw [h.1, ih h.2]

/-- A property of the state that depends on the number of rounds done, and that every round takes one further or
gives up in `E`, holds for all rounds at the end of a loop that does not give up. -/
theorem forM_invariant {f : α → EStateM ε σ PUnit} {E : ε → σ → Prop} (l : List α) (I : Nat → σ → Prop)
    (hround : ∀ k (hk : k < l.length) s, I k s →
      match f l[k] s with
      | .ok _ t => I (k + 1) t
      | .error e t => E e t) {s : σ} (hstart : I 0 s) :
    match l.forM f s with
    | .ok _ t => I l.length t
    | .error e t => E e t := by
  induction l generalizing I s with
  | nil => exact hstart
  | cons a l ih =>
    have hfirst := hround 0 (by simp) s hstart
    simp only [List.getElem_cons_zero] at hfirst
    change match EStateM.bind (f a) (fun _ => l.forM f) s with
      | .ok _ t => I (l.length + 1) t
      | .error e t => E e t
    cases hf : f a s with
    | error e t =>
      simp only [hf] at hfirst
      simpa only [EStateM.bind, hf] using hfirst
    | ok u t =>
      simp only [hf, Nat.zero_add] at hfirst
      simpa only [EStateM.bind, hf] using ih (fun k => I (k + 1))
        (fun k hk t ht => hround (k + 1) (by simpa using hk) t ht) hfirst

end DemandPaging
