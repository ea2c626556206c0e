import DemandPaging.PageTable

/-!
Requests to page tables, and tables that conform to their interface. Such a table may refuse to map an address, but it
refuses other requests only where there is no entry.
-/

namespace DemandPaging

/-- Where the entry leads and what it allows, whatever was done through it. -/
def PageTableEntry.lead (e : PageTableEntry) : PhysAddr × EntryFlags :=
  (e.frame, { e.flags with accessed := false, dirty := false })

/-- The entry after its accessed bit was cleared. -/
def PageTableEntry.unused (e : PageTableEntry) : PageTableEntry :=
  { e with flags := { e.flags with accessed := false } }

@[simp] theorem PageTableEntry.lead_unused (e : PageTableEntry) : e.unused.lead = e.lead := rfl

@[simp] theorem PageTableEntry.dirty_unused (e : PageTableEntry) : e.unused.flags.dirty = e.flags.dirty := rfl

@[simp] theorem PageTableEntry.unused_unused (e : PageTableEntry) : e.unused.unused = e.unused := rfl

/-- A new entry that leads where the old one did, and is as dirty, is the old one after its accessed bit was cleared. -/
theorem PageTableEntry.eq_unused {e : PageTableEntry} {pa : PhysAddr} {p : Permission}
    (hlead : e.lead = (pa, .ofPermission p)) :
    (⟨pa, { EntryFlags.ofPermission p with dirty := e.flags.dirty }⟩ : PageTableEntry) = e.unused := by
  obtain ⟨hframe, hflags⟩ := Prod.mk.inj hlead
  rw [← hflags, ← hframe]
  rfl

/-- The failure of an operation for which a page table refuses to map an address. -/
def MappingError.refusal : Failure := .error MappingError.unaligned.toErrno

namespace PageTable

@[simp] theorem entries_next (t : PageTable) : t.next.entries = t.entries := rfl

/-- A request is done, or it is refused and the entries stay as they are. -/
theorem request_cases (t : PageTable) (x : PageTable → Except MappingError PageTable) :
    (∃ u, x t.next = .ok u ∧ t.request x = (.ok (), u)) ∨ ∃ e, t.request x = (.error e, t.next) := by
  unfold request
  cases t.refusal? with
  | some e => exact .inr ⟨e, rfl⟩
  | none =>
    cases hx : x t.next with
    | ok u => exact .inl ⟨u, rfl, rfl⟩
    | error e => exact .inr ⟨e, rfl⟩

/-- The table was told to refuse no request for an entry that there is. -/
structure Willing (t : PageTable) : Prop where
  unmap : t.refuseUnmap = []
  update : t.refuseUpdate = []
  script : t.script = []

instance (t : PageTable) : Decidable t.Willing :=
  decidable_of_iff (t.refuseUnmap = [] ∧ t.refuseUpdate = [] ∧ t.script = [])
    ⟨fun ⟨hunmap, hupdate, hscript⟩ => ⟨hunmap, hupdate, hscript⟩, fun h => ⟨h.unmap, h.update, h.script⟩⟩

theorem willing_default : (default : PageTable).Willing := ⟨rfl, rfl, rfl⟩

/-- Without a script, what is asked for decides about a request. -/
theorem Willing.request_eq {t : PageTable} (h : t.Willing) (x : PageTable → Except MappingError PageTable) :
    t.request x = match x t with
      | .ok u => (.ok (), u)
      | .error e => (.error e, t) := by
  have hnext : t.next = t := by
    obtain ⟨entries, refuseMap, refuseUnmap, refuseUpdate, script⟩ := t
    obtain rfl : script = [] := h.script
    rfl
  rw [request, hnext, refusal?, h.script]
  rfl

theorem map_eq {t : PageTable} {va : VirtAddr} {pa : PhysAddr} (hmap : va ∉ t.refuseMap) (hva : va.offset = 0)
    (hpa : pa.offset = 0) (hentry : t.entries[va]? = none) (p : Permission) :
    t.map va pa p = .ok { t with entries := t.entries.insert va ⟨pa, .ofPermission p⟩ } := by
  have hnot : va ∉ t.entries := by simp [Std.ExtTreeMap.mem_iff_isSome_getElem?, hentry]
  simp [PageTable.map, hva, hpa, hmap, hnot]

theorem map_eq_of_mem {t : PageTable} {va : VirtAddr} (hmap : va ∈ t.refuseMap) (pa : PhysAddr) (p : Permission) :
    t.map va pa p = .error .unaligned := by
  simp [PageTable.map, hmap]

theorem Willing.unmap_eq {t : PageTable} (h : t.Willing) {va : VirtAddr} {e : PageTableEntry}
    (hentry : t.entries[va]? = some e) :
    t.unmap va = .ok (e.frame, { t with entries := t.entries.erase va }) := by
  simp [PageTable.unmap, h.unmap, hentry]

theorem Willing.update_eq {t : PageTable} (h : t.Willing) {va : VirtAddr} {e : PageTableEntry}
    (hentry : t.entries[va]? = some e) (f : EntryFlags → EntryFlags) :
    t.update va f = .ok { t with entries := t.entries.insert va { e with flags := f e.flags } } := by
  simp [PageTable.update, h.update, hentry]

theorem Willing.withEntries {t : PageTable} (h : t.Willing) (entries : Std.ExtTreeMap VirtAddr PageTableEntry) :
    ({ t with entries := entries } : PageTable).Willing :=
  ⟨h.unmap, h.update, h.script⟩

theorem isDirty_eq {t : PageTable} {va : VirtAddr} {e : PageTableEntry} (hentry : t.entries[va]? = some e) :
    t.isDirty va = e.flags.dirty := by
  simp [isDirty, hentry]

theorem exists_of_isAccessed {t : PageTable} {va : VirtAddr} (h : t.isAccessed va = true) :
    ∃ e, t.entries[va]? = some e ∧ e.flags.accessed = true := by
  unfold isAccessed at h
  cases hentry : t.entries[va]? with
  | none => simp [hentry] at h
  | some e => exact ⟨e, rfl, by simpa [hentry] using h⟩

end PageTable

end DemandPaging
