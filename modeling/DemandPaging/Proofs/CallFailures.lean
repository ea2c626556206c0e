import DemandPaging.Proofs.Reachability
import DemandPaging.Proofs.RealShortages

/-!
How calls fail. What a call reports as its failure stopped something that the call did, and nothing that is done after
that, to undo what was begun, takes the place of this failure.
-/

namespace DemandPaging

open Paging

/-- A call leads along the relation, whatever its outcome is. -/
theorem Paging.Along.outcome {I : System → Prop} {R : System → System → Prop} {c : Call} {s : System}
    (h : Along I R c.run) (hs : I s) : I (c.outcome s).2 ∧ R s (c.outcome s).2 :=
  (wp_outcome (P := fun _ t => I t ∧ R s t)).1 (h s hs)

namespace System

/-- All that is known of a system between two calls. -/
structure Steady (s : System) : Prop where
  wellFormed : s.WellFormed
  sound : s.view.Sound
  orderly : s.Orderly

theorem steady_of_queue {s : System} (hs : s.WellFormed) (hv : s.view.Sound)
    (hqueue : ∃ l, s.pager.resident.Represents l) : s.Steady :=
  ⟨hs, hv, hs.swap, hqueue, hs.tables⟩

theorem Steady.note {s : System} (h : s.Steady) (e : Event) :
    ({ s with log := s.log.push e } : System).Steady ∧ s.Served { s with log := s.log.push e } := by
  obtain ⟨ho, hserved⟩ := composable_keeps.note e s h.orderly
  exact ⟨⟨⟨h.wellFormed.pool, h.wellFormed.swap, h.wellFormed.tables, h.wellFormed.retired⟩, h.sound, ho⟩, hserved⟩

theorem Initial.steady {s : System} (h : s.Initial) : s.Steady := by
  refine steady_of_queue h.wellFormed h.sound ⟨[], ?_⟩
  obtain ⟨base, frames, disk, maxStack, hpager⟩ := h.pager_eq
  rw [hpager]
  exact .empty

theorem Steady.call {s : System} (h : s.Steady) {c : Call} (hc : c.Admissible s) : (c.outcome s).2.Steady := by
  obtain ⟨ht, ds, htrace, -⟩ := exists_explains h.wellFormed h.sound hc
  have hkeeps : Keeps c.run := keeps_run fun id table hfork => (hc.table table (by rw [hfork]; rfl)).1
  exact ⟨ht, htrace.sound h.sound, (hkeeps.outcome h.orderly).1⟩

theorem Steady.device {s t : System} (h : s.Steady) (ht : s.Device t) : t.Steady := by
  refine steady_of_queue (ht.wellFormed h.wellFormed) (ht.sound h.sound) ?_
  cases ht <;> exact h.orderly.queue

theorem Reachable.steady {s : System} (h : s.Reachable) : s.Steady := by
  induction h with
  | initial h => exact h.steady
  | call _ hc ih => exact ih.call hc
  | device _ ht ih => exact ih.device ht

end System

namespace Call

/-- The failure that the call reports with its outcome. A copy out of user memory reports it beside the bytes that were
copied. -/
def failure? : Call → Except Failure Answer → Option Failure
  | copyFromUser _ _ _, .ok (.transfer t) => t.failure
  | _, .ok _ => none
  | _, .error f => some f

/-- What the call does until it fails. -/
def untilFailure : Call → Paging Unit
  | fork id table => do
    let child ← Paging.create table
    Paging.duplicate child id
  | copyFromUser id va count => do
    if let some f := (← Paging.copyFromUser id va count).failure then throw f
  | c => do let _ ← c.run

end Call

namespace Paging

variable {α : Type} {s t : System} {f : Failure}

/-- What performs something, and disturbs nothing, leads from one steady system to another. -/
theorem Performs.steady {x : Paging α} {R : Except Failure α → List Deed → System → Prop} (h : Performs x s R)
    (hx : Keeps x) (hs : s.Steady) :
    Paging.wp x s (fun a t => t.Steady ∧ s.Served t ∧ ∃ ds, Trace s.view ds t.view ∧ R (.ok a) ds t)
      fun f t => t.Steady ∧ s.Served t ∧ ∃ ds, Trace s.view ds t.view ∧ R (.error f) ds t :=
  (wp.and h (hx s hs.orderly)).mono
    (fun _ _ ⟨⟨ht, ds, htrace, hr⟩, ho, hserved⟩ => ⟨⟨ht, htrace.sound hs.sound, ho⟩, hserved, ds, htrace, hr⟩)
    fun _ _ ⟨⟨ht, ds, htrace, hr⟩, ho, hserved⟩ => ⟨⟨ht, htrace.sound hs.sound, ho⟩, hserved, ds, htrace, hr⟩

/-- A fork fails as the copying into the new space does; that the space is released again does not fail. -/
theorem exists_of_fork (hs : s.Steady) {id : SpaceId} (hlive : id ∈ s.spaces) {table : PageTable}
    (htable : table.Willing) (hentries : table.entries = ∅) (h : fork id table s = .error f t) :
    ∃ u, (Call.fork id table).untilFailure s = .error f u ∧ u.Served t := by
  have hP := lenient_keeps.stepwise
  have hne : id ≠ s.view.next := Nat.ne_of_lt (hs.sound.fresh hlive)
  set s₁ : System := { s with spaces := s.spaces.insert s.nextSpace { table := table }, nextSpace := s.nextSpace + 1 }
    with hs₁
  have hcreate : create table s = .ok s.nextSpace s₁ := rfl
  obtain ⟨hsteady, -, ds, -, -, -, hview⟩ :=
    wp.of_ok ((performs_create hs.wellFormed hs.sound htable hentries).steady (keeps_create htable) hs) hcreate
  have hlive₁ : s₁.view.live s.view.next := by rw [hview]; exact .inl rfl
  have hduplicate := (performs_duplicate hsteady.wellFormed hsteady.sound hlive₁ hne).steady
    (hP.duplicate trivial trivial) hsteady
  have hfork : wp (fork id table) s (fun _ _ => True) fun f t =>
      ∃ u, duplicate s.nextSpace id s₁ = .error f u ∧ u.Served t := by
    change wp (do concludeFork s.nextSpace s.nextSpace (← attempt (duplicate s.nextSpace id))) s₁ _ _
    rw [wp_bind, wp_attempt]
    unfold wp
    cases hresult : duplicate s.nextSpace id s₁ with
    | ok _ u => trivial
    | error f u =>
      obtain ⟨hu, -, es, htrace, hes, -⟩ := hduplicate.of_error hresult
      have hlive' : u.view.live s.view.next := htrace.live (fun d hd => (hes d hd).isOnPages) hlive₁
      have hdrop := (performs_drop hu.wellFormed hu.sound hlive').steady (hP.drop trivial) hu
      change wp (do
        drop s.view.next
        modify fun x => { x with nextSpace := s.nextSpace }
        throw f : Paging SpaceId) u _ _
      rw [wp_bind]
      refine hdrop.mono (fun _ w hw => ⟨u, rfl, hw.2.1.files, hw.2.1.swap⟩) fun _ _ hw => ?_
      obtain ⟨-, -, _, -, hok, -⟩ := hw
      cases hok
  exact hfork.of_error h

end Paging

namespace Call

variable {s : System} {c : Call} {f : Failure}

/-- A failure stopped what the call did until then. -/
theorem exists_of_failure? (hs : s.Steady) (hc : c.Admissible s) (h : c.failure? (c.outcome s).1 = some f) :
    ∃ t, c.untilFailure s = .error f t ∧ t.Served (c.outcome s).2 := by
  have herror {f' : Failure} {t : System} (hrun : c.run s = .error f' t) : c.outcome s = (.error f', t) := by
    rw [outcome, hrun]
  have hok {a : Answer} {t : System} (hrun : c.run s = .ok a t) : c.outcome s = (.ok a, t) := by
    rw [outcome, hrun]
  have hplain (hfailure : ∀ f, c.failure? (.error f) = some f) (hnone : ∀ a, c.failure? (.ok a) = none) :
      ∃ t, (do let _ ← c.run : Paging Unit) s = .error f t ∧ t.Served (c.outcome s).2 := by
    cases hrun : c.run s with
    | ok a t =>
      rw [hok hrun, hnone] at h
      cases h
    | error f' t =>
      rw [herror hrun, hfailure, Option.some.injEq] at h
      subst h
      refine ⟨t, ?_, herror hrun ▸ .refl t⟩
      simp only [bind, EStateM.bind, hrun]
  cases c with
  | fork id table =>
    cases hfork : Paging.fork id table s with
    | ok child t =>
      have hrun : (fork id table).run s = .ok (.space child) t := by
        simp only [run, bind, EStateM.bind, hfork, pure, EStateM.pure]
      rw [hok hrun] at h
      cases h
    | error f' t =>
      have hrun : (fork id table).run s = .error f' t := by simp only [run, bind, EStateM.bind, hfork]
      rw [herror hrun] at h ⊢
      cases h
      obtain ⟨htable, hentries⟩ := hc.table table rfl
      exact exists_of_fork hs (hc.space id rfl) htable hentries hfork
  | copyFromUser id va count =>
    cases hcopy : Paging.copyFromUser id va count s with
    | ok tr t =>
      have hrun : (copyFromUser id va count).run s = .ok (.transfer tr) t := by
        simp only [run, bind, EStateM.bind, hcopy, pure, EStateM.pure]
      rw [hok hrun] at h ⊢
      have hfailure : tr.failure = some f := h
      refine ⟨t, ?_, .refl t⟩
      simp only [untilFailure, bind, EStateM.bind, hcopy, hfailure]
      rfl
    | error f' t =>
      have hrun : (copyFromUser id va count).run s = .error f' t := by simp only [run, bind, EStateM.bind, hcopy]
      rw [herror hrun] at h ⊢
      cases h
      refine ⟨t, ?_, .refl t⟩
      simp only [untilFailure, bind, EStateM.bind, hcopy]
  | _ => exact hplain (fun _ => rfl) fun _ => rfl

/-- Only a shortage that there is stops a call. -/
theorem shortOnly_untilFailure (htable : ∀ table ∈ c.table?, table.Willing) :
    ShortOnly System.Lacks c.untilFailure := by
  have hP := stepwise_shortOnly
  have hrun (hfork : ∀ id table, c ≠ .fork id table) : ShortOnly System.Lacks (do let _ ← c.run : Paging Unit) := by
    have hmunmap (id : SpaceId) (va : VirtAddr) (_ : c = .munmap id va) (e : Errno) :
        ShortOnly System.Lacks (fail e : Paging Unit) := .throw (not_isShortage_error e)
    refine hP.bind (hP.run (fun _ _ => trivial) (fun _ _ => trivial) hmunmap ?_) fun _ => hP.pure _
    exact fun id table hc => absurd hc (hfork id table)
  cases c with
  | fork id table => exact hP.bind (hP.create (htable table rfl)) fun child => hP.duplicate trivial trivial
  | copyFromUser id va count =>
    have hpiece (p : Piece) : ShortOnly System.Lacks (do
        let cur ← userAddr va (p.start - va.toNat)
        withUserPage id cur false fun content => (Content.slice content cur.offset p.length, content)) :=
      hP.bind (hP.userAddr _ _) fun cur => hP.withUserPage trivial _ _ _
    intro s hs
    unfold untilFailure
    rw [wp_bind]
    refine (wp_readPieces_ends System.Served.refl System.Served.trans ?_ _ (fun p _ => hpiece p) hs).mono
      (fun tr t ht => ?_) fun _ _ h => h
    · exact fun _ h => h
    · cases hfailure : tr.failure with
      | none => exact ht.1
      | some f => exact ⟨ht.1, ht.2 f hfailure⟩
  | _ => exact hrun nofun

end Call

end DemandPaging
