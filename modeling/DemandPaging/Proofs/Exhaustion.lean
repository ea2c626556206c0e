import DemandPaging.Proofs.Consistency
import DemandPaging.Proofs.DeviceErrors
import DemandPaging.Proofs.ShortageRecord

/-!
How the exhaustion of memory and swap space shows. It is reported by whoever met it, and to nobody else, and only if
there is nothing left to be had.
-/

namespace DemandPaging

open Locking Paging

/-- A section meets only shortages that there are. -/
theorem Section.shortOnly_action (σ : Section) : ShortOnly System.Lacks σ.action := by
  have hP := stepwise_shortOnly
  cases σ with
  | claim id va => exact hP.bind (hP.claim trivial va) fun _ => hP.pure ()
  | access id va write f => exact hP.bind (hP.withUserPage trivial va write f) fun _ => hP.pure ()
  | copyPages dst src vas => exact hP.forM (fun va => hP.duplicatePage trivial trivial va) vas
  | acquire => exact hP.bind hP.acquire fun _ => hP.pure ()
  | removePage id va => exact hP.removePage trivial va
  | releasePages id pages => exact hP.bind (hP.releasePages trivial pages) fun _ => hP.pure ()

namespace Call

variable {s : System} {c : Call} {what : Shortage} {e : Errno}

/-- A call that reports a shortage was stopped where there is one. -/
theorem lacks_of_failure? (hs : s.Steady) (hc : c.Admissible s)
    (h : c.failure? (c.outcome s).1 = some (.panic (.shortage what))) :
    ∃ t, c.untilFailure s = .error (.panic (.shortage what)) t ∧ t.Lacks what := by
  obtain ⟨t, ht, -⟩ := exists_of_failure? hs hc h
  have hshort := shortOnly_untilFailure (fun table htable => (hc.table table htable).1) s hs.orderly
  exact ⟨t, ht, (hshort.of_error ht).2 what rfl⟩

/-- An error that tells of a lack of memory or space comes from a disk or a file. -/
theorem isPlain_or_returned (hs : s.Steady) (hc : c.Admissible s) (htakes : c.TakesFrames)
    (h : c.failure? (c.outcome s).1 = some (.error e)) : e.IsPlain ∨ s.Returned (c.outcome s).2 e := by
  obtain ⟨t, ht, hserved⟩ := exists_of_failure? hs hc h
  exact ((honest_untilFailure hs hc htakes).of_error ht).served hserved e rfl

end Call

/-- While the lock of the frame table is free, no shortage is recorded, and whoever takes it reports no shortage but
one that it meets itself. A shortage that is reported is there: the swap device is full, or no frame is free and no
resident page can be persisted. None is reported as an ordinary error, unless a disk or a file returns such an error.
After the report the lock is free, and the system consistent. -/
theorem Guarded.shortages_reported :
    (∀ {g : Guarded}, g.Reachable → g.lock.isHeld = false → g.lock.value = none ∧ ∀ σ : Section,
      σ.run g = some (settled (σ.action g.system)) ∧ (g.system.Orderly → ∀ what g',
        σ.run g = some (.error (.panic (.shortage what)) g') → g' = .free g'.system ∧ g'.system.Lacks what)) ∧
    ∀ {s : System}, s.Reachable → ∀ {c : Call}, c.Admissible s →
      (∀ what, c.failure? (c.outcome s).1 = some (.panic (.shortage what)) →
        ∃ t, c.untilFailure s = .error (.panic (.shortage what)) t ∧ t.Lacks what) ∧
      (c.TakesFrames → ∀ e, c.failure? (c.outcome s).1 = some (.error e) → e.IsPlain ∨ s.Returned (c.outcome s).2 e) ∧
      (c.outcome s).2.Consistent := by
  refine ⟨fun hg hfree => ?_, fun {s} hs {c} hc => ⟨fun what => ?_, fun htakes e => ?_, ?_⟩⟩
  · obtain hg | hheld := hg.eq_free_or_isHeld
    · rw [hg]
      refine ⟨rfl, fun σ => ⟨σ.run_free _, fun horderly what g' hrun => ?_⟩⟩
      rw [σ.run_free, Option.some.injEq] at hrun
      obtain ⟨t, ht, rfl⟩ := eq_error_of_settled hrun
      exact ⟨rfl, ((σ.shortOnly_action _ horderly).of_error ht).2 what rfl⟩
    · rw [hheld] at hfree
      cases hfree
  · exact Call.lacks_of_failure? hs.steady hc
  · exact Call.isPlain_or_returned hs.steady hc htakes
  · exact System.consistent_of_sound (hs.call hc).wellFormed (hs.call hc).sound

/-- A small system with a page for its frame, one for each of its slots, and one more, which finds no place. -/
def System.overfull : System :=
  small.after [.create, .addPage 0 .anon ⟨0x1000⟩ true .zero, .addPage 0 .anon ⟨0x2000⟩ true .zero,
    .addPage 0 .anon ⟨0x3000⟩ true .zero, .addPage 0 .anon ⟨0x4000⟩ true .zero, .claim 0 ⟨0x1000⟩, .claim 0 ⟨0x2000⟩,
    .claim 0 ⟨0x3000⟩]

theorem Guarded.exists_shortages_reported : System.overfull.Reachable ∧
    ((Section.claim 0 ⟨0x4000⟩).run (.free System.overfull) =
      some (settled ((Section.claim 0 ⟨0x4000⟩).action System.overfull))) ∧
    (Call.claim 0 ⟨0x4000⟩).failure? ((Call.claim 0 ⟨0x4000⟩).outcome System.overfull).1 =
      some (.panic (.shortage (.swap 2))) ∧
    (∃ t : System, t.Lacks (.swap 2)) ∧ ((Call.claim 0 ⟨0x4000⟩).outcome System.overfull).2.Consistent := by
  have hreachable : System.overfull.Reachable :=
    (System.Reachable.initial (System.initial_small {})).after (by decide +kernel)
  have hadmissible : (Call.claim 0 ⟨0x4000⟩).Admissible System.overfull := by decide +kernel
  have hfailure : (Call.claim 0 ⟨0x4000⟩).failure? ((Call.claim 0 ⟨0x4000⟩).outcome System.overfull).1 =
      some (.panic (.shortage (.swap 2))) := by decide +kernel
  obtain ⟨hguarded, hcalls⟩ := Guarded.shortages_reported
  obtain ⟨hlacks, -, hconsistent⟩ := hcalls hreachable hadmissible
  obtain ⟨t, -, ht⟩ := hlacks _ hfailure
  obtain ⟨-, hsections⟩ := hguarded (.initial System.overfull) rfl
  exact ⟨hreachable, (hsections _).1, hfailure, ⟨t, ht⟩, hconsistent⟩

end DemandPaging
