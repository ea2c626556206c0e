import Mathlib.Data.List.Rotate
import DemandPaging.Proofs.FrameLooks

/-!
Searches, look by look. The registry turns by one frame with each look that evicts nothing, and nothing else is lost; a
search ends with the first page that can go, or else it was in vain.
-/

namespace DemandPaging

open Paging

namespace System

variable {s t u v w : System} {pa : PhysAddr} {o : Occupant} {l : List (PhysAddr × Occupant)} {n : Nat}

section

variable (hl : s.pager.resident.front? = some (pa, o))

include hl

theorem evictWithin_of_used (htest : testAndClearAccessed o s = .ok true t) :
    evictWithin (n + 1) s = evictWithin n t.rotate := by
  rw [Paging.evictWithin, pager_bind, hl]
  simp only [bind, EStateM.bind, htest, if_true]
  rfl

theorem evictWithin_of_persist (htest : testAndClearAccessed o s = .ok false s)
    (htaken : unregister pa s = .ok (some o) u) {r : Except Failure Unit}
    (hresult : Paging.persist pa o u = .ok r w) :
    evictWithin (n + 1) s =
      match r with
      | .ok _ => .ok pa w.tally
      | .error (.error _) => evictWithin n (w.enroll pa o)
      | .error (.panic p) => .error (.panic p) (w.enroll pa o) := by
  rw [Paging.evictWithin, pager_bind, hl]
  simp only [bind, EStateM.bind, htest, htaken, hresult, Bool.false_eq_true, if_false]
  cases r with
  | ok _ => rfl
  | error f => cases f <;> rfl

end

/-- A search that begins in `v` comes to the frame at `pa`, whose page was not used, and tries to persist it, with the
result `r`. -/
def Attempts (v : System) (pa : PhysAddr) (o : Occupant) (r : Except Failure Unit) (u : System) : Prop :=
  ∃ tried t q, v.Search tried t ∧ t.pager.resident.front? = some (pa, o) ∧ testAndClearAccessed o t = .ok false t ∧
    unregister pa t = .ok (some o) (t.withResident q) ∧ Paging.persist pa o (t.withResident q) = .ok r u

/-- A search that begins in `v` tries to persist the page in the frame at `pa`, and fails. -/
def Tries (v : System) (pa : PhysAddr) : Prop := ∃ o f u, v.Attempts pa o (.error f) u

/-- As long as a search goes on, it is the same frames whose pages cannot be persisted, and always because of an ordinary
error. -/
def FailsAt (v : System) (fails : PhysAddr → Prop) : Prop :=
  ∀ pa o r u, v.Attempts pa o r u → (fails pa → ∃ e, r = .error (.error e)) ∧ (¬ fails pa → r = .ok ())

/-- Nothing that `v` holds is lost in `t`, and its registry has at most turned round. -/
structure Turned (v t : System) : Prop where
  steady : t.Steady
  rotated : v.clock ~r t.clock
  loses : v.LosesNothing v.Tries t

/-- A search that began in `v` has come to `s`. -/
structure Seeking (v s : System) : Prop extends Turned v s where
  search : ∃ tried, v.Search tried s

/-- What comes of a look at the frame in front, behind which the clock goes on with `l`. -/
inductive Look (v s : System) (pa : PhysAddr) (o : Occupant) (l : List (PhysAddr × Occupant)) : Prop
  | skipped {t : System} (hkept : s.IsAccessed o ∨ ∃ e u, v.Attempts pa o (.error (.error e)) u) (ht : Seeking v t)
    (hclock : t.clock = l ++ [(pa, o)]) (hbits : ∀ o', t.IsAccessed o' ↔ s.IsAccessed o' ∧ o'.id ≠ o.id)
    (hrest : ∀ n, evictWithin (n + 1) s = evictWithin n t)
  | evicted {u : System} (hunused : ¬ s.IsAccessed o) (hattempt : v.Attempts pa o (.ok ()) u) (hclock : u.clock = l)
    (hevicts : s.Evicts pa o u) (hend : ∀ n, evictWithin (n + 1) s = .ok pa u.tally)
  | stopped {f : Failure} {u t : System} (hunused : ¬ s.IsAccessed o) (hattempt : v.Attempts pa o (.error f) u)
    (hf : f.IsShortage) (ht : Turned v t) (hend : ∀ n, evictWithin (n + 1) s = .error f t)

namespace Seeking

theorem start (hs : s.Steady) : Seeking s s := ⟨⟨hs, .refl _, .refl s _⟩, [], .start⟩

section

variable (h : Seeking v s) (hl : s.clock = (pa, o) :: l)

include h hl

theorem front?_eq : s.pager.resident.front? = some (pa, o) := by rw [h.steady.front?_eq, hl, List.head?_cons]

theorem isRotated_behind : v.clock ~r l ++ [(pa, o)] := by
  have hbehind : [(pa, o)] ++ l ~r l ++ [(pa, o)] := List.isRotated_append
  exact h.rotated.trans (hl ▸ hbehind)

/-- A page that was used is passed over. -/
theorem pass (hused : s.IsAccessed o) :
    ∃ t, testAndClearAccessed o s = .ok true t ∧ Seeking v t.rotate ∧ t.rotate.clock = l ++ [(pa, o)] ∧
      ∀ o', t.rotate.IsAccessed o' ↔ s.IsAccessed o' ∧ o'.id ≠ o.id := by
  obtain ⟨t, htest, hsteady, hclock, hloses, hbits⟩ := h.steady.pass (P := v.Tries) hl hused
  obtain ⟨tried, hsearch⟩ := h.search
  exact ⟨t, htest, ⟨⟨hsteady, hclock ▸ h.isRotated_behind hl, h.loses.trans hloses⟩, tried,
    hsearch.pass (h.front?_eq hl) htest⟩, hclock, hbits⟩

/-- A page that was not used is persisted, or it is retained, and the search goes on unless it was no ordinary error
that kept the page from being persisted. -/
theorem persist (hunused : ¬ s.IsAccessed o) :
    testAndClearAccessed o s = .ok false s ∧ ∃ q r u, unregister pa s = .ok (some o) (s.withResident q) ∧
      Paging.persist pa o (s.withResident q) = .ok r u ∧ v.Attempts pa o r u ∧
      match r with
      | .ok _ => u.clock = l ∧ s.Evicts pa o u
      | .error f => f.IsExpected ∧ Turned v (u.enroll pa o) ∧ (u.enroll pa o).clock = l ++ [(pa, o)] ∧
          s.Retains pa o (u.enroll pa o) ∧ ∀ e, f = .error e → Seeking v (u.enroll pa o) := by
  obtain ⟨-, htest⟩ | ⟨hused, -⟩ := testAndClearAccessed_cases h.steady.orderly o
  · obtain ⟨tried, hsearch⟩ := h.search
    obtain ⟨q, -, htaken, hend⟩ := h.steady.persist (A := []) hl
    have hattempt {r : Except Failure Unit} {u : System} (hresult : Paging.persist pa o (s.withResident q) = .ok r u) :
        v.Attempts pa o r u := ⟨tried, s, q, hsearch, h.front?_eq hl, htest, htaken, hresult⟩
    obtain ⟨u, hresult, hclock, hevicts⟩ | ⟨f, u, hresult, hf, hclock, hretains⟩ := hend
    · exact ⟨htest, q, _, u, htaken, hresult, hattempt hresult, hclock, hevicts⟩
    · have hturned : Turned v (u.enroll pa o) := ⟨hretains.steady, hclock ▸ h.isRotated_behind hl,
        h.loses.trans (hretains.loses.mono fun _ hpa => hpa ▸ ⟨o, f, u, hattempt hresult⟩)⟩
      refine ⟨htest, q, _, u, htaken, hresult, hattempt hresult, hf, hturned, hclock, hretains, fun e he => ?_⟩
      exact ⟨hturned, pa :: tried, hsearch.fail (h.front?_eq hl) htest htaken (he ▸ hresult)⟩
  · exact absurd hused hunused

theorem look : Look v s pa o l := by
  by_cases hused : s.IsAccessed o
  · obtain ⟨t, htest, ht, hclock, hbits⟩ := h.pass hl hused
    exact .skipped (.inl hused) ht hclock hbits fun n => evictWithin_of_used (h.front?_eq hl) htest
  · obtain ⟨htest, q, r, u, htaken, hresult, hattempt, hend⟩ := h.persist hl hused
    have hrest (n : Nat) := evictWithin_of_persist (n := n) (h.front?_eq hl) htest htaken hresult
    cases r with
    | ok _ => exact .evicted hused hattempt hend.1 hend.2 hrest
    | error f =>
      obtain ⟨hf, hturned, hclock, hretains, hseeking⟩ := hend
      cases f with
      | error e =>
        exact .skipped (.inr ⟨e, u, hattempt⟩) (hseeking e rfl) hclock hretains.isAccessed_iff hrest
      | panic p => exact .stopped hused hattempt (hf.resolve_left fun ⟨e, he⟩ => by cases he) hturned hrest

end

/-- A search ends with a frame whose page was evicted, or it was in vain and has changed next to nothing. -/
theorem evictWithin (h : Seeking v s) (budget : Nat) :
    wp (evictWithin budget) s (fun pa t => ∃ o u w l, Seeking v u ∧ u.clock = (pa, o) :: l ∧ w.clock = l ∧
      u.Evicts pa o w ∧ t = w.tally) fun f t => f.IsShortage ∧ Turned v t := by
  induction budget generalizing s with
  | zero => exact ⟨⟨_, rfl⟩, h.toTurned⟩
  | succ budget ih =>
    cases hl : s.clock with
    | nil =>
      unfold Paging.evictWithin
      rw [wp_bind, wp_pager, h.steady.front?_eq, hl]
      exact ⟨⟨_, rfl⟩, h.toTurned⟩
    | cons victim l =>
      obtain ⟨pa, o⟩ := victim
      cases h.look hl with
      | skipped _ ht _ _ hrest =>
        rw [wp, hrest]
        exact ih ht
      | @evicted u _ _ hclock hevicts hend =>
        rw [wp, hend]
        exact ⟨o, s, u, l, h, hl, hclock, hevicts, rfl⟩
      | stopped _ _ hf ht hend =>
        rw [wp, hend]
        exact ⟨hf, ht⟩

/-- Every state that a search passes through is as it began, but for what a search may change. -/
theorem of_search (hs : v.Steady) {tried : List PhysAddr} (h : v.Search tried s) : Seeking v s := by
  have hclock {t : System} {pa : PhysAddr} {o : Occupant} (ht : Seeking v t)
      (hfront : t.pager.resident.front? = some (pa, o)) : ∃ l, t.clock = (pa, o) :: l := by
    rw [ht.steady.front?_eq] at hfront
    exact ⟨_, List.eq_cons_of_mem_head? hfront⟩
  induction h with
  | start => exact start hs
  | @pass tried s t pa o _ hfront htest ih =>
    obtain ⟨l, hl⟩ := hclock ih hfront
    by_cases hused : s.IsAccessed o
    · obtain ⟨t', htest', ht, -⟩ := ih.pass hl hused
      obtain rfl : t = t' := (EStateM.Result.ok.inj (htest.symm.trans htest')).2
      exact ht
    · cases htest.symm.trans (ih.persist hl hused).1
  | @fail tried s t u w pa o e _ hfront htest htaken hfailed ih =>
    obtain ⟨l, hl⟩ := hclock ih hfront
    by_cases hused : s.IsAccessed o
    · obtain ⟨t', htest', -⟩ := ih.pass hl hused
      cases htest.symm.trans htest'
    · obtain ⟨htest', q, r, w', htaken', hresult, -, hend⟩ := ih.persist hl hused
      obtain rfl : t = s := (EStateM.Result.ok.inj (htest.symm.trans htest')).2
      obtain rfl : u = t.withResident q := (EStateM.Result.ok.inj (htaken.symm.trans htaken')).2
      obtain ⟨rfl, rfl⟩ := EStateM.Result.ok.inj (hfailed.symm.trans hresult)
      exact hend.2.2.2.2 e rfl

end Seeking

/-- A frame comes from the pool, or from a page that was evicted at the end of a search; otherwise the search was in
vain. -/
theorem Steady.acquire (hs : s.Steady) :
    wp acquire s
      (fun pa t => (∃ pool, s.pager.pool.alloc = .ok (some (pa, pool)) ∧
          t = { s with pager := { s.pager with pool := pool } }) ∨
        s.pager.pool.alloc = .ok none ∧ ∃ o u w l, Seeking s u ∧ u.clock = (pa, o) :: l ∧ w.clock = l ∧ u.Evicts pa o w ∧
          t = w.tally)
      fun f t => f.IsShortage ∧ Turned s t := by
  unfold Paging.acquire
  rw [wp_bind, wp_pager]
  obtain ⟨r, halloc⟩ := hs.wellFormed.pool.alloc_ok
  rw [halloc]
  cases r with
  | some found => exact .inl ⟨found.2, rfl, rfl⟩
  | none =>
    unfold evict
    dsimp only
    rw [wp_bind, wp_pager]
    exact ((Seeking.start hs).evictWithin _).mono (fun _ _ h => .inr ⟨rfl, h⟩) fun _ _ h => h

end System

end DemandPaging
