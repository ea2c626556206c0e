import Mathlib.Data.List.Chain
import DemandPaging.Proofs.Composition
import DemandPaging.Proofs.Precondition

/-!
The states that an action passes through. An action is put together from elementary steps, each of which changes one
thing: a frame is taken or given back, an entry is made or taken away, a device is asked for something. A property that
holds after every one of these steps holds at all times while the action runs.
-/

namespace DemandPaging

open Paging

variable {α β : Type} {s t : System} {us vs : List System} {I J : System → Prop}

namespace System

/-- One thing changes: a line of the log, a file, the swap device, a count, the registry, a frame, the record of an address
space, or a hardware entry. -/
inductive Step (s : System) : System → Prop
  | report (e : Event) : Step s { s with log := s.log.push e }
  | file (f : FileId) (file : File) : Step s { s with files := s.files.setIfInBounds f file }
  | swap (t : SwapDevice) : Step s { s with pager := { s.pager with swap := t } }
  | count (n : Nat) : Step s { s with pager := { s.pager with evictions := n } }
  | registry (q : Clock PhysAddr Occupant) : Step s { s with pager := { s.pager with resident := q } }
  | bytes (pa : PhysAddr) (content : PageContent) :
    Step s { s with pager := { s.pager with pool := s.pager.pool.setContent pa content } }
  | take {pa : PhysAddr} {pool : FramePool} (h : s.pager.pool.alloc = .ok (some (pa, pool))) :
    Step s { s with pager := { s.pager with pool := pool } }
  | giveBack {pa : PhysAddr} {pool : FramePool} (h : s.pager.pool.release pa = .ok pool) :
    Step s { s with pager := { s.pager with pool := pool } }
  | record (id : SpaceId) {g : Space → Space} (hg : ∀ sp, (g sp).table = sp.table) :
    Step s { s with spaces := s.spaces.modify id g }
  | map (id : SpaceId) (va : VirtAddr) (pa : PhysAddr) (p : Permission) : Step s { s with
      spaces := s.spaces.modify id fun sp => { sp with table := ((s.space id).table.request (·.map va pa p)).2 } }
  | unmap (id : SpaceId) (va : VirtAddr) : Step s { s with spaces := s.spaces.modify id fun sp => { sp with
      table := ((s.space id).table.request fun t => (t.unmap va).map Prod.snd).2 } }
  | update (id : SpaceId) (va : VirtAddr) (f : EntryFlags → EntryFlags) : Step s { s with
      spaces := s.spaces.modify id fun sp => { sp with table := ((s.space id).table.request (·.update va f)).2 } }

end System

namespace Paging

/-- The state in which the action ends, with a result or not. -/
def final (x : Paging α) (s : System) : System :=
  match x s with
  | .ok _ t | .error _ t => t

theorem final_of_ok {x : Paging α} {a : α} (h : x s = .ok a t) : final x s = t := by rw [final, h]

theorem final_of_error {x : Paging α} {f : Failure} (h : x s = .error f t) : final x s = t := by rw [final, h]

/-- The action, started in `s`, passes through these states, one after each elementary step of which it is made. -/
inductive Visits : {α : Type} → Paging α → System → List System → Prop
  | pure {α : Type} (a : α) (s : System) : Visits (pure a) s []
  | throw {α : Type} (f : Failure) (s : System) : Visits (throw f : Paging α) s []
  | get (s : System) : Visits get s []
  | modify {g : System → System} {s : System} (h : s.Step (g s)) : Visits (modify g) s [g s]
  | onFile {α : Type} (f : FileId) (x : EStateM Failure File α) (s : System) :
    Visits (onFile f x) s [final (onFile f x) s]
  | onSwapDevice {α : Type} (x : EStateM Errno SwapDevice α) (s : System) :
    Visits (onSwapDevice x) s [final (onSwapDevice x) s]
  | bind {α β : Type} {x : Paging α} {g : α → Paging β} {s t : System} {a : α} {us vs : List System}
    (hx : Visits x s us) (h : x s = .ok a t) (hg : Visits (g a) t vs) : Visits (x >>= g) s (us ++ vs)
  | bindError {α β : Type} {x : Paging α} {g : α → Paging β} {s t : System} {f : Failure} {us : List System}
    (hx : Visits x s us) (h : x s = .error f t) : Visits (x >>= g) s us
  | attempt {α : Type} {x : Paging α} {s : System} {us : List System} (hx : Visits x s us) : Visits (attempt x) s us
  | caught {α : Type} {x : Paging α} {s : System} {us : List System} (hx : Visits x s us) : Visits (caught x) s us

theorem step_onFile (f : FileId) (x : EStateM Failure File α) (s : System) : s.Step (final (onFile f x) s) := by
  unfold final onFile
  cases x (s.file f) with
  | ok a file => exact .file f file
  | error e file => exact .file f file

theorem step_onSwapDevice (x : EStateM Errno SwapDevice α) (s : System) : s.Step (final (onSwapDevice x) s) := by
  unfold final onSwapDevice
  cases x s.pager.swap with
  | ok a swap => exact .swap swap
  | error e swap => exact .swap swap

theorem getLastD_append (u : System) (us vs : List System) : (us ++ vs).getLastD u = vs.getLastD (us.getLastD u) := by
  induction us generalizing u with
  | nil => rfl
  | cons v us ih => rw [List.cons_append, List.getLastD_cons, List.getLastD_cons, ih]

/-- A chain goes on from where another one ends. -/
theorem isChain_append {u : System} (h : List.IsChain System.Step (u :: us))
    (h' : List.IsChain System.Step (us.getLastD u :: vs)) : List.IsChain System.Step (u :: (us ++ vs)) := by
  induction us generalizing u with
  | nil => exact h'
  | cons v us ih =>
    rw [List.getLastD_cons] at h'
    obtain ⟨huv, hrest⟩ := List.isChain_cons_cons.1 h
    exact List.isChain_cons_cons.2 ⟨huv, ih hrest h'⟩

/-- The states follow each other by elementary steps, and the action ends in the last one. -/
theorem Visits.isChain {x : Paging α} (h : Visits x s us) :
    List.IsChain System.Step (s :: us) ∧ us.getLastD s = final x s := by
  induction h with
  | pure | throw | get => exact ⟨.singleton _, rfl⟩
  | modify h => exact ⟨.cons_cons h (.singleton _), rfl⟩
  | onFile f x s => exact ⟨.cons_cons (step_onFile f x s) (.singleton _), rfl⟩
  | onSwapDevice x s => exact ⟨.cons_cons (step_onSwapDevice x s) (.singleton _), rfl⟩
  | @bind _ _ x g s t a us vs _ h _ ihx ihg =>
    have hfinal : final (x >>= g) s = final (g a) t := by rw [final, bind_eq_of_eq_ok h, final]
    have hlast : us.getLastD s = t := ihx.2.trans (final_of_ok h)
    rw [hfinal, getLastD_append, hlast]
    exact ⟨isChain_append ihx.1 (hlast.symm ▸ ihg.1), ihg.2⟩
  | @bindError _ _ x g s t f us _ h ih =>
    have hfinal : final (x >>= g) s = final x s := by
      rw [final_of_error (bind_eq_of_eq_error h g), final_of_error h]
    rw [hfinal]
    exact ih
  | @attempt _ x s us _ ih =>
    refine ⟨ih.1, ih.2.trans ?_⟩
    unfold final Paging.attempt
    cases x s <;> rfl
  | @caught _ x s us _ ih =>
    refine ⟨ih.1, ih.2.trans ?_⟩
    unfold final Paging.caught
    cases x s with
    | ok => rfl
    | error f t => cases f <;> rfl

/-- While the action runs from `s`, `I` holds after each of its steps. -/
def Throughout (I : System → Prop) (x : Paging α) (s : System) : Prop := ∃ us, Visits x s us ∧ ∀ u ∈ us, I u

namespace Throughout

variable {x : Paging α}

theorem mono (h : Throughout I x s) (hIJ : ∀ u, I u → J u) : Throughout J x s := by
  obtain ⟨us, hus, hI⟩ := h
  exact ⟨us, hus, fun u hu => hIJ u (hI u hu)⟩

theorem pure (a : α) : Throughout I (pure a) s := ⟨[], .pure a s, fun _ h => nomatch h⟩

theorem throw (f : Failure) : Throughout I (throw f : Paging α) s := ⟨[], .throw f s, fun _ h => nomatch h⟩

theorem get : Throughout I get s := ⟨[], .get s, fun _ h => nomatch h⟩

theorem modify {g : System → System} (h : s.Step (g s)) (hI : I (g s)) : Throughout I (modify g) s :=
  ⟨[g s], .modify h, fun _ hu => List.mem_singleton.1 hu ▸ hI⟩

theorem onFile {f : FileId} {x : EStateM Failure File α} (hI : ∀ file, I { s with files := s.files.setIfInBounds f file }) :
    Throughout I (onFile f x) s := by
  refine ⟨_, .onFile f x s, fun u hu => List.mem_singleton.1 hu ▸ ?_⟩
  unfold final Paging.onFile
  cases x (s.file f) <;> exact hI _

theorem onSwapDevice {x : EStateM Errno SwapDevice α} (hI : ∀ t, I { s with pager := { s.pager with swap := t } }) :
    Throughout I (onSwapDevice x) s := by
  refine ⟨_, .onSwapDevice x s, fun u hu => List.mem_singleton.1 hu ▸ ?_⟩
  unfold final Paging.onSwapDevice
  cases x s.pager.swap <;> exact hI _

/-- What follows is looked at from where the first action ends. -/
theorem bind {g : α → Paging β} (hx : Throughout I x s)
    (hg : wp x s (fun a t => Throughout I (g a) t) fun _ _ => True) : Throughout I (x >>= g) s := by
  obtain ⟨us, hus, hI⟩ := hx
  unfold wp at hg
  cases h : x s with
  | error f t => exact ⟨us, .bindError hus h, hI⟩
  | ok a t =>
    rw [h] at hg
    obtain ⟨vs, hvs, hI'⟩ := hg
    exact ⟨us ++ vs, .bind hus h hvs, fun u hu => (List.mem_append.1 hu).elim (hI u) (hI' u)⟩

theorem pager : Throughout I pager s := bind get (pure s.pager)

theorem space {id : SpaceId} : Throughout I (space id) s := bind get (pure (s.space id))

theorem attempt (hx : Throughout I x s) : Throughout I (attempt x) s := by
  obtain ⟨us, hus, hI⟩ := hx
  exact ⟨us, .attempt hus, hI⟩

theorem caught (hx : Throughout I x s) : Throughout I (caught x) s := by
  obtain ⟨us, hus, hI⟩ := hx
  exact ⟨us, .caught hus, hI⟩

/-- What is done to undo an action is looked at from where that one failed. -/
theorem orUndo {undo : Paging Unit} (hx : Throughout I x s)
    (hundo : wp x s (fun _ _ => True) fun f t => ∀ e, f = .error e → Throughout I undo t) :
    Throughout I (orUndo x undo) s := by
  refine hx.caught.bind ?_
  rw [wp_caught]
  refine hundo.mono (fun a _ _ => .pure a) fun f t h => ?_
  cases f with
  | error e => exact (h e rfl).bind (wp.of_forall (fun _ _ => .throw _) fun _ _ => trivial)
  | panic p => trivial

/-- What holds from the beginning and after each step holds in the end. -/
theorem wp_final (hx : Throughout I x s) (hs : I s) : wp x s (fun _ t => I t) fun _ t => I t := by
  obtain ⟨us, hus, hI⟩ := hx
  have hfinal : I (final x s) := by
    rw [← hus.isChain.2]
    obtain h | h := List.mem_cons.1 (List.getLastD_mem_cons (l := us) (a := s))
    · rwa [h]
    · exact hI _ h
  unfold wp
  cases h : x s with
  | ok a t => rwa [final_of_ok h] at hfinal
  | error f t => rwa [final_of_error h] at hfinal

end Throughout

end Paging

end DemandPaging
