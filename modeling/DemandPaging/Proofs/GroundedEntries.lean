import DemandPaging.Proofs.Calm
import DemandPaging.Proofs.Duplicate
import DemandPaging.Proofs.Lenient
import DemandPaging.Proofs.Visits

/-!
Hardware entries lead to frames in use, at all times. While a frame is acquired, its old page may be between its frame
and its slot, and while a page is copied its frame may belong to no page yet; but a frame goes back to the pool only
when no entry leads to it any more.
-/

namespace DemandPaging

open Paging

variable {α : Type} {s t : System} {F G : PhysAddr → Prop} {pa : PhysAddr} {id : SpaceId}

namespace PageTable

variable {t u : PageTable} {va : VirtAddr}

/-- The entries of `u` lead where those of `t` do, or to frames in `F`. -/
def LeadsInto (F : PhysAddr → Prop) (t u : PageTable) : Prop :=
  ∀ (va : VirtAddr) (e : PageTableEntry), u.entries[va]? = some e →
    F e.frame ∨ ∃ e', t.entries[va]? = some e' ∧ e'.frame = e.frame

theorem LeadsInto.of_eq (h : u.entries = t.entries) : t.LeadsInto F u := fun _ e hentry =>
  .inr ⟨e, h ▸ hentry, rfl⟩

end PageTable

namespace System

/-- The frame at `pa` is relied on: a hardware entry leads to it, or a page is registered for it. -/
def ReliesOn (s : System) (pa : PhysAddr) : Prop :=
  (∃ p e, s.entry? p = some e ∧ e.frame = pa) ∨ ∃ o, s.pager.resident.get? pa = some o

/-- Frames that are relied on are in use, and so are those in `F`. -/
structure Grounded (F : PhysAddr → Prop) (s : System) : Prop where
  pool : s.pager.pool.WellFormed
  used : ∀ {pa}, s.ReliesOn pa ∨ F pa → pa ∈ s.pager.pool.used

namespace Grounded

theorem mono (h : s.Grounded F) (hG : ∀ pa, G pa → s.ReliesOn pa ∨ F pa) : s.Grounded G :=
  ⟨h.pool, fun hpa => h.used (hpa.elim .inl (hG _))⟩

/-- No frame comes or goes, and none is relied on but those that were, or are in `F`. -/
theorem of_reliesOn (h : s.Grounded F) (hpool : t.pager.pool = s.pager.pool)
    (ht : ∀ pa, t.ReliesOn pa → s.ReliesOn pa ∨ F pa) : t.Grounded F := by
  refine ⟨hpool ▸ h.pool, fun hpa => ?_⟩
  rw [hpool]
  exact h.used (hpa.elim (ht _) .inr)

/-- A change to an address space that makes no entry lead anywhere else but to frames in `F`. -/
theorem of_modify (h : s.Grounded F) {g : Space → Space}
    (hg : (s.space id).table.LeadsInto F (g (s.space id)).table) :
    System.Grounded F { s with spaces := s.spaces.modify id g } := by
  by_cases hid : id ∈ s.spaces
  · refine h.of_reliesOn rfl ?_
    rintro pa (⟨p, e, hentry, rfl⟩ | ho)
    · rw [ entry?, space_modify hid] at hentry
      split at hentry
      next hp =>
        obtain hF | ⟨e', hentry', hframe⟩ := hg _ _ hentry
        · exact .inr hF
        · exact .inl (.inl ⟨p, e', by rwa [ entry?, hp], hframe⟩)
      next => exact .inl (.inl ⟨p, e, hentry, rfl⟩)
    · exact .inl (.inr ho)
  · rwa [modify_spaces_of_not_mem hid]

/-- A frame that is not relied on is given back. -/
theorem giveBack (h : s.Grounded (· = pa)) (hpa : ¬ s.ReliesOn pa) :
    ∃ pool, s.pager.pool.release pa = .ok pool ∧
      System.Grounded (fun _ => False) { s with pager := { s.pager with pool := pool } } := by
  obtain ⟨pool, hrelease, hpool, hused, -⟩ := h.pool.release (h.used (.inr rfl))
  refine ⟨pool, hrelease, hpool, fun {pa'} hpa' => ?_⟩
  have hrelied : s.ReliesOn pa' := hpa'.resolve_right id
  have hmem := h.used (.inl hrelied)
  rw [hused, Multiset.mem_cons] at hmem
  exact hmem.resolve_left fun e => hpa (e ▸ hrelied)

end Grounded

end System

namespace Paging

/-- While the action runs, frames that are relied on are in use, and so are those in `F`. -/
def Maintains (F : PhysAddr → Prop) (x : Paging α) : Prop := ∀ s, s.Grounded F → Throughout (System.Grounded F) x s

/-- An action that keeps to it follows one that has. -/
theorem Throughout.bind_maintains {β : Type} {x : Paging α} {g : α → Paging β}
    (hx : Throughout (System.Grounded F) x s) (hs : s.Grounded F) (hg : ∀ a, Maintains F (g a)) :
    Throughout (System.Grounded F) (x >>= g) s :=
  hx.bind ((hx.wp_final hs).mono (fun a t ht => hg a t ht) fun _ _ _ => trivial)

theorem Maintains.bind {β : Type} {x : Paging α} {g : α → Paging β} (hx : Maintains F x) (hg : ∀ a, Maintains F (g a)) :
    Maintains F (x >>= g) := fun s hs => (hx s hs).bind_maintains hs hg

end Paging

end DemandPaging
