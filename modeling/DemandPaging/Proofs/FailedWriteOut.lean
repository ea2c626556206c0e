import DemandPaging.Proofs.Seeking

/-!
Write-outs that fail. A page that cannot be persisted is left as it was, and so a search for a victim that fails leaves
behind nothing but cleared accessed bits, another start of the clock, bytes in free slots, and bytes in files under the
windows of pages that it has tried.
-/

namespace DemandPaging

open Paging

namespace System

variable {s t : System} {pa : PhysAddr} {o : Occupant}

/-- What belongs to the page in the frame at `pa` is in `t` what it is in `s`, but for the accessed bit. -/
structure KeepsResident (s : System) (pa : PhysAddr) (o : Occupant) (t : System) : Prop where
  registered : s.pager.resident.get? pa = some o ∧ t.pager.resident.get? pa = some o
  page : ∃ page, s.page? o.id = some page ∧ page.frame = some pa ∧ t.page? o.id = some page
  bytes : t.pager.pool = s.pager.pool
  entry : ∃ e, s.entry? o.id = some e ∧ e.frame = pa ∧ t.entry? o.id = some e.unused
  slots : t.pager.swap.slots = s.pager.swap.slots

theorem Retains.keepsResident (h : s.Retains pa o t) (hs : s.Steady) (ho : s.view.resident pa = some o) :
    s.KeepsResident pa o t := by
  obtain ⟨page, hpage, hframe, -⟩ := hs.sound.resident.1 ho
  obtain ⟨e, hentry, hlead⟩ := hs.sound.entry_of_frame hpage hframe
  obtain ⟨-, e', hentry', hentries⟩ := h.failed.same
  obtain rfl : e = e' := Option.some.inj (hentry.symm.trans hentry')
  have hunused : t.entry? o.id = some e.unused := (congrFun hentries o.id).trans (Function.update_self ..)
  have hpages : t.page? o.id = some page := (congrFun h.loses.pages o.id).trans hpage
  exact ⟨⟨ho, (congrFun h.loses.resident pa).trans ho⟩, ⟨page, hpage, hframe, hpages⟩, h.loses.pool,
    ⟨e, hentry, congrArg Prod.fst hlead, hunused⟩, h.loses.slots⟩

/-- A write-out that fails loses nothing. Whichever registered page cannot be persisted, for whatever reason, is left as
it was, and its frame goes behind all others; wherever a search has come, the registry has at most turned round and
nothing else is lost; and so it is where no frame can be acquired. -/
theorem Steady.failed_write_out_loses_nothing (hs : s.Steady) :
    (∀ A pa o B, s.clock = A ++ (pa, o) :: B → ∃ u r w, unregister pa s = .ok (some o) u ∧
      Paging.persist pa o u = .ok r w ∧ ∀ f, r = .error f → ∃ t, register pa o w = .ok () t ∧ t.Steady ∧
        t.clock = A ++ B ++ [(pa, o)] ∧ s.KeepsResident pa o t ∧ s.LosesNothing (· = pa) t) ∧
    (∀ tried t, s.Search tried t → Turned s t) ∧
    ∀ f t, Paging.acquire s = .error f t → f.IsShortage ∧ Turned s t := by
  refine ⟨fun A pa o B hl => ?_, fun tried t hsearch => (Seeking.of_search hs hsearch).toTurned, fun f t hfailed =>
    hs.acquire.of_error hfailed⟩
  have ho : s.view.resident pa = some o := hs.get?_of_mem (by simp [hl])
  obtain ⟨q, -, htaken, ⟨w, hresult, -⟩ | ⟨f, w, hresult, -, hclock, hretains⟩⟩ := hs.persist hl
  · exact ⟨_, _, w, htaken, hresult, fun f hf => by cases hf⟩
  · exact ⟨_, _, w, htaken, hresult, fun _ _ =>
      ⟨w.enroll pa o, rfl, hretains.steady, hclock, hretains.keepsResident hs ho, hretains.loses⟩⟩

/-- A page of a file was written, and the file refuses to be written. -/
def stubborn : System := (small { data := [1, 2, 3], faults := { write := [0] } }).after
  [.create, .mmap 0 ⟨0x10000⟩ 3 true 0 0, .store 0 ⟨0x10001⟩ 0 9]

theorem reachable_stubborn : stubborn.Reachable :=
  (Reachable.initial (initial_small _)).after (by decide +kernel)

/-- The only page in a frame is one that cannot be written back. It keeps what was stored in it, and there is no frame to
be had. -/
theorem exists_failed_write_out : ∃ (s : System) (pa : PhysAddr) (o : Occupant), s.Reachable ∧ s.clock = [(pa, o)] ∧
    (s.entry? o.id).map (·.flags.dirty) = some true ∧
    (∃ u f w t, unregister pa s = .ok (some o) u ∧ Paging.persist pa o u = .ok (.error f) w ∧
      register pa o w = .ok () t ∧ s.KeepsResident pa o t) ∧
    ∃ f t, Paging.acquire s = .error f t ∧ f.IsShortage ∧ Turned s t := by
  let pa : PhysAddr := ⟨0x1000000⟩
  let o : Occupant := ⟨0, ⟨0x10000⟩, true⟩
  have hclock : stubborn.clock = [(pa, o)] := by decide +kernel
  have hdirty : (stubborn.entry? o.id).map (·.flags.dirty) = some true := by decide +kernel
  have hstays : (match unregister pa stubborn with
      | .ok _ u => match Paging.persist pa o u with
        | .ok r _ => r.isOk
        | .error _ _ => true
      | .error _ _ => true) = false := by decide +kernel
  have hshort : (match Paging.acquire stubborn with
      | .ok _ _ => true
      | .error _ _ => false) = false := by decide +kernel
  obtain ⟨hkept, -, hfails⟩ := Steady.failed_write_out_loses_nothing reachable_stubborn.steady
  refine ⟨stubborn, pa, o, reachable_stubborn, hclock, hdirty, ?_, ?_⟩
  · obtain ⟨u, r, w, htaken, hresult, hrest⟩ := hkept [] pa o [] hclock
    rw [htaken] at hstays
    simp only [hresult] at hstays
    cases r with
    | ok _ => cases hstays
    | error f =>
      obtain ⟨t, hback, -, -, hkeeps, -⟩ := hrest f rfl
      exact ⟨u, f, w, t, htaken, hresult, hback, hkeeps⟩
  · cases hresult : Paging.acquire stubborn with
    | ok _ _ =>
      rw [hresult] at hshort
      cases hshort
    | error f t => exact ⟨f, t, rfl, hfails f t hresult⟩

end System

end DemandPaging
