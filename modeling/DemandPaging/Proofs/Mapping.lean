import DemandPaging.Paging.Mapping
import DemandPaging.Proofs.Parting
import DemandPaging.Proofs.Performance

/-!
Mappings of files. To map a file is to describe pages and to record a region, and to unmap it is to forget the region
and to remove its pages.
-/

namespace DemandPaging

/-- The page of the byte at `k` behind a page address, and the place of the byte in it. -/
theorem VirtAddr.pageDown_add_of_aligned {va : VirtAddr} (h : va.offset = 0) (k : Nat) :
    (⟨va.toNat + k⟩ : VirtAddr).pageDown = ⟨va.toNat + k / pageSize * pageSize⟩ ∧
      (⟨va.toNat + k⟩ : VirtAddr).offset = k % pageSize := by
  have hpage : (va.toNat + k / pageSize * pageSize) % pageSize = 0 := by rwa [Nat.add_mul_mod_self_right]
  have hsum : va.toNat + k = va.toNat + k / pageSize * pageSize + k % pageSize := by
    rw [Nat.add_assoc, Nat.div_add_mod']
  obtain ⟨hdown, hoffset⟩ := VirtAddr.pageDown_add
    (by rw [hpage, Nat.zero_add]; exact Nat.mod_lt _ (by decide) :
      (va.toNat + k / pageSize * pageSize) % pageSize + k % pageSize < pageSize)
  refine ⟨?_, ?_⟩
  · rw [hsum, hdown]
    exact VirtAddr.pageDown_of_aligned hpage
  · change (va.toNat + k) % pageSize = k % pageSize
    rw [hsum, hoffset, hpage, Nat.zero_add]

/-- A mapping: the pages of `space` from `start` on show the `covered` bytes of `file` from `offset` on. -/
structure Mapping where
  space : SpaceId
  start : VirtAddr
  writable : Bool
  file : FileId
  offset : Nat
  covered : Nat
  deriving DecidableEq

namespace Mapping

/-- The mapping of `length` bytes of a file of `size` bytes, or of those of them that there are. -/
def ofRequest (space : SpaceId) (start : VirtAddr) (length : Nat) (writable : Bool) (file : FileId)
    (offset size : Nat) : Mapping := ⟨space, start, writable, file, offset, min length (size - offset)⟩

/-- The number of pages. -/
def count (m : Mapping) : Nat := (m.covered + (pageSize - 1)) / pageSize

/-- The region that records the mapping. -/
def region (m : Mapping) : Region := ⟨m.start, m.count, m.file⟩

/-- The place where the region is recorded. -/
def origin (m : Mapping) : PageId := ⟨m.space, m.start⟩

/-- The address of the `i`-th page. -/
def addr (m : Mapping) (i : Nat) : VirtAddr := ⟨m.start.toNat + i * pageSize⟩

/-- The place of the `i`-th page. -/
def place (m : Mapping) (i : Nat) : PageId := ⟨m.space, m.addr i⟩

/-- The part of the file that the `i`-th page shows. -/
def window (m : Mapping) (i : Nat) : FileWindow :=
  .new m.file (m.offset + i * pageSize) (m.covered - i * pageSize)

/-- The place is that of a page of the mapping. -/
def IsPlace (m : Mapping) (p : PageId) : Prop := ∃ i < m.count, p = m.place i

/-- The deed by which the `i`-th page appears. -/
def describe (m : Mapping) (i : Nat) : Deed := .describe (m.place i) (.pending m.writable (.file (m.window i)))

/-- The deeds by which the mapping is made. -/
def deeds (m : Mapping) : List Deed := (List.range m.count).map m.describe ++ [.record m.origin m.region]

/-- A mapping that there can be of a file of `size` bytes. -/
structure Fits (m : Mapping) (size : Nat) : Prop where
  start_ne : m.start.toNat ≠ 0
  start_aligned : m.start.offset = 0
  offset_aligned : m.offset % pageSize = 0
  covered_ne : m.covered ≠ 0
  covered_le : m.offset + m.covered ≤ size
  limit_le : m.start.toNat + m.count * pageSize ≤ kernelBase

theorem Fits.count_ne {m : Mapping} {size : Nat} (h : m.Fits size) : m.count ≠ 0 := by
  have hcovered := h.covered_ne
  rw [count, Nat.div_ne_zero_iff]
  exact ⟨by decide, by omega⟩

theorem lt_count_iff {m : Mapping} {i : Nat} : i < m.count ↔ i * pageSize < m.covered := by
  rw [count, Nat.lt_div_iff_mul_lt (by decide)]
  simp only [pageSize]
  omega

/-- The pages of a mapping that ends within the user half are all there. -/
theorem addr_lt {m : Mapping} {i : Nat} (hlimit : m.start.toNat + m.count * pageSize ≤ kernelBase) (hi : i < m.count) :
    (m.addr i).toNat < kernelBase := by
  have hle : (i + 1) * pageSize ≤ m.count * pageSize := Nat.mul_le_mul_right _ hi
  simp only [addr, pageSize] at *
  omega

@[simp] theorem place_zero (m : Mapping) : m.place 0 = m.origin := by simp [place, addr, origin]

theorem offset_addr {m : Mapping} (h : m.start.offset = 0) (i : Nat) : (m.addr i).offset = 0 := by
  simp only [VirtAddr.offset, addr, Nat.add_mul_mod_self_right] at h ⊢
  exact h

theorem place_inj {m : Mapping} {i j : Nat} : m.place i = m.place j ↔ i = j := by
  simp only [place, addr, PageId.mk.injEq, VirtAddr.mk.injEq, true_and, pageSize]
  omega

theorem isPlace_origin {m : Mapping} {size : Nat} (hm : m.Fits size) : m.IsPlace m.origin :=
  ⟨0, Nat.pos_of_ne_zero hm.count_ne, m.place_zero.symm⟩

theorem IsPlace.space_eq {m : Mapping} {p : PageId} (h : m.IsPlace p) : p.space = m.space := by
  obtain ⟨i, _, rfl⟩ := h
  rfl

theorem addr_mem_addrs {m : Mapping} {i : Nat} (hi : i < m.count) : m.addr i ∈ m.region.addrs :=
  List.mem_map.2 ⟨i, List.mem_range.2 hi, rfl⟩

theorem mem_deeds {m : Mapping} {d : Deed} :
    d ∈ m.deeds ↔ (∃ i < m.count, d = m.describe i) ∨ d = .record m.origin m.region := by
  simp only [deeds, List.mem_append, List.mem_map, List.mem_range, List.mem_singleton, @eq_comm _ _ d]

end Mapping

namespace Trace

variable {v w : View} {m : Mapping} {p : PageId}

/-- Once the mapping is made, all its pages are there. -/
theorem isSome_of_mapping (h : Trace v m.deeds w) (hp : m.IsPlace p) : (w.pages p).isSome := by
  obtain ⟨i, hi, rfl⟩ := hp
  refine h.isSome_of_adds (Mapping.mem_deeds.2 (.inl ⟨i, hi, rfl⟩)) rfl fun hmem => ?_
  obtain ⟨j, _, hd⟩ | hd := Mapping.mem_deeds.1 hmem <;> cases hd

/-- Only the places of the mapping get pages. -/
theorem isPlace_of_mapping (h : Trace v m.deeds w) (hnone : v.pages p = none) (hsome : (w.pages p).isSome) :
    m.IsPlace p := by
  by_contra hplace
  rw [h.pages_eq_none (fun d hd hadds => ?_) hnone] at hsome
  · cases hsome
  · obtain ⟨i, hi, rfl⟩ | rfl := Mapping.mem_deeds.1 hd
    · exact hplace ⟨i, hi, hadds.symm⟩
    · exact hadds

theorem regions_of_mapping (h : Trace v m.deeds w) :
    w.regions = Function.update v.regions m.origin (some m.region) := by
  have hsame : (List.range m.count).foldl (fun regions i => Deed.applyRegions regions (m.describe i)) v.regions =
      v.regions := List.foldl_fixed' (fun _ => rfl) _
  rw [h.regions_eq, Mapping.deeds, List.foldl_append, List.foldl_map, hsame]
  rfl

end Trace

namespace Paging

variable {s : System}

/-- Each of the pages goes away, whatever becomes of the others. The first error is the result. -/
theorem wp_removePages (hs : s.WellFormed) (hv : s.view.Sound) (id : SpaceId) (vas : List VirtAddr) :
    wp (removePages id vas) s (fun o t => t.WellFormed ∧ ∃ l,
      l.map Prod.fst = vas.map (fun va => (⟨id, va.pageDown⟩ : PageId)) ∧ s.view.Leaves l t.view ∧ o = firstError? l)
      fun _ _ => False := by
  induction vas generalizing s with
  | nil => exact ⟨hs, [], rfl, .done, rfl⟩
  | cons va vas ih =>
    unfold removePages
    rw [wp_bind]
    refine (wp_removePage_parts hs hv id va).mono (fun r t ht => ?_) fun _ _ => False.elim
    obtain ⟨ht, parting, hparts, hr⟩ := ht
    have hrest := ih ht (hparts.sound hv rfl)
    cases r with
    | ok _ =>
      refine hrest.mono (fun o u hu => ?_) fun _ _ => False.elim
      obtain ⟨hu, l, hl, hleaves, rfl⟩ := hu
      exact ⟨hu, _, congrArg _ hl, .next hparts hleaves, by rw [firstError?, firstError?, List.findSome?_cons, hr]⟩
    | error e =>
      rw [wp_bind]
      refine hrest.mono (fun o u hu => ?_) fun _ _ => False.elim
      obtain ⟨hu, l, hl, hleaves, rfl⟩ := hu
      exact ⟨hu, _, congrArg _ hl, .next hparts hleaves, by rw [firstError?, List.findSome?_cons, hr]⟩

/-- A region goes away with all its pages, whatever becomes of them. The first error is the result. -/
theorem wp_munmap (hs : s.WellFormed) (hv : s.view.Sound) {id : SpaceId} {va : VirtAddr} {r : Region}
    (hr : s.view.regions ⟨id, va⟩ = some r) :
    wp (munmap id va) s
      (fun _ t => t.WellFormed ∧ ∃ l, l.map Prod.fst = r.places id ∧
        (s.view.setRegion ⟨id, va⟩ none).Leaves l t.view ∧ firstError? l = none)
      fun f t => t.WellFormed ∧ ∃ l e, l.map Prod.fst = r.places id ∧
        (s.view.setRegion ⟨id, va⟩ none).Leaves l t.view ∧ f = .error e ∧ firstError? l = some e := by
  have hregion : (s.space id).regionAt? va = some r := hr
  unfold munmap
  simp only [wp_bind, wp_space, hregion]
  refine wp_eraseRegion_of_view (p := ⟨id, va⟩) hs (hv.region hr) fun t ht hview => ?_
  refine wp_note_of_view ht _ fun u hu hview' => ?_
  rw [hview] at hview'
  have hforget : Does (.forget ⟨id, va⟩) s.view u.view := hview' ▸ .forget
  refine (wp_removePages hu (hforget.sound hv) id r.addrs).mono (fun o x hx => ?_) fun _ _ => False.elim
  obtain ⟨hx, l, hl, hleaves, rfl⟩ := hx
  rw [hview'] at hleaves
  cases hfirst : firstError? l with
  | none => exact ⟨hx, l, hl, hleaves, hfirst⟩
  | some e => exact ⟨hx, l, e, hl, hleaves, rfl, hfirst⟩

/-- What unmapping a region does: the region is forgotten, and so is every page of it. -/
theorem performs_munmap (hs : s.WellFormed) (hv : s.view.Sound) (id : SpaceId) (va : VirtAddr) :
    Performs (munmap id va) s fun r ds t =>
      match s.view.regions ⟨id, va⟩ with
      | none => ds = [] ∧ r = .error (.error .invalidArgument)
      | some region =>
        (∀ d ∈ ds, d = .forget ⟨id, va⟩ ∨ ∃ a ∈ region.addrs, d = .remove ⟨id, a.pageDown⟩) ∧
          (s.view.setRegion ⟨id, va⟩ none).Freed (fun p => ∃ a ∈ region.addrs, p = ⟨id, a.pageDown⟩) t.view ∧
          ∀ f, r = .error f → ∃ e, f = .error e := by
  cases hsome : s.view.regions ⟨id, va⟩ with
  | none =>
    have hnone : (s.space id).regionAt? va = none := hsome
    unfold munmap
    rw [performs_space_bind, hnone]
    exact performs_fail hs ⟨rfl, rfl⟩
  | some region =>
    have hforget : Does (.forget ⟨id, va⟩) s.view (s.view.setRegion ⟨id, va⟩ none) := .forget
    have hends {t : System} {l : List (PageId × Parting)} (hl : l.map Prod.fst = region.places id)
        (hleaves : (s.view.setRegion ⟨id, va⟩ none).Leaves l t.view) : ∃ ds, Trace s.view ds t.view ∧
          (∀ d ∈ ds, d = .forget ⟨id, va⟩ ∨ ∃ a ∈ region.addrs, d = .remove ⟨id, a.pageDown⟩) ∧
          (s.view.setRegion ⟨id, va⟩ none).Freed (fun p => ∃ a ∈ region.addrs, p = ⟨id, a.pageDown⟩) t.view := by
      have hmem (p : PageId) : p ∈ l.map Prod.fst ↔ ∃ a ∈ region.addrs, p = ⟨id, a.pageDown⟩ := by
        simp only [hl, Region.places, List.mem_map, eq_comm]
      obtain ⟨ds, htrace, hds⟩ := hleaves.trace (hforget.sound hv) rfl
      refine ⟨_, .deed hforget htrace, fun d hd => (List.mem_cons.1 hd).imp_right fun hd => ?_,
        (hleaves.freed (hforget.sound hv) rfl).congr hmem⟩
      obtain ⟨p, hp, rfl⟩ := hds d hd
      obtain ⟨a, ha, rfl⟩ := (hmem p).1 hp
      exact ⟨a, ha, rfl⟩
    refine (wp_munmap hs hv hsome).mono (fun _ t ht => ?_) fun f t ht => ?_
    · obtain ⟨ht, l, hl, hleaves, -⟩ := ht
      obtain ⟨ds, htrace, hds, hfreed⟩ := hends hl hleaves
      exact ⟨ht, ds, htrace, hds, hfreed, fun f hf => by cases hf⟩
    · obtain ⟨ht, l, e, hl, hleaves, rfl, -⟩ := ht
      obtain ⟨ds, htrace, hds, hfreed⟩ := hends hl hleaves
      exact ⟨ht, ds, htrace, hds, hfreed, fun f hf => ⟨e, (Except.error.inj hf).symm⟩⟩

/-- The pages of a mapping are described in order where nothing is in their way. Only an address that is no word stops
that, so none of them has to go away again. -/
theorem performs_mapPages (hs : s.WellFormed) (hv : s.view.Sound) {m : Mapping} (hlive : s.view.live m.space)
    (haligned : m.start.offset = 0) (count i : Nat) (huser : ∀ j < i + count, (m.addr j).toNat < kernelBase)
    (hfree : ∀ j, i ≤ j → j < i + count → s.view.pages (m.place j) = none) :
    Performs (mapPages m.space m.start m.writable m.file m.offset m.covered count i) s fun r ds _ =>
      ∃ k, ds = (List.range' i k).map m.describe ∧ (r = .ok () → k = count) := by
  induction count generalizing s i with
  | zero => exact performs_pure hs ⟨0, rfl, fun _ => rfl⟩
  | succ count ih =>
    have hstop {f : Failure} {k : Nat} : (Except.error f : Except Failure Unit) = .ok () → k = count + 1 :=
      fun h => by cases h
    have hdown : (m.addr i).pageDown = m.addr i := VirtAddr.pageDown_of_aligned (m.offset_addr haligned i)
    unfold mapPages
    refine performs_word_bind hs (fun done hdone => ?_) fun o _ => ⟨0, rfl, hstop⟩
    refine performs_word_bind hs (fun va hva => ?_) fun o _ => ⟨0, rfl, hstop⟩
    refine performs_word_bind hs (fun position hposition => ?_) fun o _ => ⟨0, rfl, hstop⟩
    obtain ⟨_, rfl⟩ := Word.mul_eq_ok_iff.1 hdone
    obtain ⟨_, rfl⟩ := VirtAddr.add_eq_ok_iff.1 hva
    obtain ⟨_, rfl⟩ := Word.add_eq_ok_iff.1 hposition
    rw [show (⟨m.start.toNat + i * pageSize⟩ : VirtAddr) = m.addr i from rfl]
    have hadd := performs_addPage hs hlive .file (m.addr i) m.writable (.file (m.window i))
    have hstep : Performs (orUndo (addPage m.space .file (m.addr i) m.writable (.file (m.window i)))
        (dropPages m.space m.start .mappingUndoFailed i 0)) s fun r ds _ => r = .ok () ∧ ds = [m.describe i] := by
      refine hadd.orUndo hv (fun u ds t hr => ⟨rfl, ?_⟩) (fun p ds t hr => ?_) fun e ds t _ _ _ hr => ?_
      · obtain ⟨q, hq, rfl⟩ := hr
        obtain rfl : Pending.file (m.window i) = q := Option.some.inj hq
        rw [hdown]
        rfl
      · obtain ⟨_, ⟨e, he⟩, _⟩ := hr
        cases he
      · cases hr.2.2 (huser i (by omega)) (by rw [hdown]; exact hfree i le_rfl (by omega))
    refine hstep.and_trace.bind hv (fun u ds t ht hv' htrace hr => ?_) fun f ds t hr => by cases hr.2.1
    obtain ⟨_, _, rfl⟩ := hr
    have hlive' : t.view.live m.space := htrace.live (by simp [Mapping.describe, Deed.IsOnPages]) hlive
    refine (ih ht hv' hlive' (i + 1) (fun j hj => huser j (by omega)) fun j hj hj' => ?_).mono fun r es w hr' => ?_
    · refine htrace.pages_eq_none (fun d hd => ?_) (hfree j (by omega) (by omega))
      rw [List.mem_singleton.1 hd]
      exact fun hplace => absurd (Mapping.place_inj.1 hplace) (by omega)
    · obtain ⟨k, rfl, hk⟩ := hr'
      exact ⟨k + 1, by rw [List.range'_succ]; rfl, fun hok => congrArg (· + 1) (hk hok)⟩

/-- A mapping that succeeds describes all its pages, where there were none, and records the region; one that fails
records nothing. -/
theorem performs_mmap (hs : s.WellFormed) (hv : s.view.Sound) {id : SpaceId} (hlive : s.view.live id)
    (start : VirtAddr) (length : Nat) (writable : Bool) (file : FileId) (offset : Nat) {m : Mapping}
    (hm : m = .ofRequest id start length writable file offset (s.view.file file).size) :
    Performs (mmap id start length writable file offset) s fun r ds _ =>
      match r with
      | .ok a => a = start ∧ m.Fits (s.view.file file).size ∧ (∀ i < m.count, s.view.pages (m.place i) = none) ∧
          ds = m.deeds
      | .error _ => ∃ k, ds = (List.range k).map m.describe := by
  have hmap : m.space = id ∧ m.start = start ∧ m.writable = writable ∧ m.file = file ∧ m.offset = offset ∧
      m.covered = min length ((s.view.file file).size - offset) := by
    subst hm
    exact ⟨rfl, rfl, rfl, rfl, rfl, rfl⟩
  obtain ⟨rfl, rfl, rfl, rfl, rfl, hcovered⟩ := hmap
  have hsize : (s.file m.file).size = (s.view.file m.file).size := rfl
  unfold Performs mmap
  simp only [wp_bind, wp_file, wp_ite, wp_fail, hsize]
  split
  · exact ⟨hs, [], .done, 0, rfl⟩
  next hvalid =>
    simp only [not_or] at hvalid
    obtain ⟨hlength, _, hstart, haligned, hoffset, hinside⟩ := hvalid
    rw [← hcovered, show (m.covered + (pageSize - 1)) / pageSize = m.count from rfl]
    cases hextent : Word.mul m.count pageSize with
    | error o => exact ⟨hs, [], .done, 0, rfl⟩
    | ok extent =>
      obtain ⟨_, rfl⟩ := Word.mul_eq_ok_iff.1 hextent
      simp only [wp_word_ok]
      cases hlimit : Word.add m.start.toNat (m.count * pageSize) with
      | error o => exact ⟨hs, [], .done, 0, rfl⟩
      | ok limit =>
        obtain ⟨_, rfl⟩ := Word.add_eq_ok_iff.1 hlimit
        simp only [wp_bind, wp_ite, wp_fail]
        split
        · exact ⟨hs, [], .done, 0, rfl⟩
        next huser =>
          simp only [wp_space]
          split
          · exact ⟨hs, [], .done, 0, rfl⟩
          next hfresh =>
            have hfits : m.Fits (s.view.file m.file).size := by
              refine ⟨hstart, of_not_not haligned, of_not_not hoffset, ?_, ?_, by omega⟩ <;> omega
            have hfree (i : Nat) (hi : i < m.count) : s.view.pages (m.place i) = none := by
              refine Std.ExtTreeMap.getElem?_eq_none fun hmem => hfresh (List.any_eq_true.2 ⟨m.addr i, ?_, ?_⟩)
              · exact Mapping.addr_mem_addrs hi
              · exact Std.ExtTreeMap.mem_iff_contains.1 hmem
            refine (performs_mapPages hs hv hlive hfits.start_aligned m.count 0
              (fun j hj => Mapping.addr_lt hfits.limit_le (by omega))
              fun j _ hj => hfree j (by omega)).wp (fun u ds t ht htrace hr => ?_) fun f ds t ht htrace hr => ?_
            · obtain ⟨k, rfl, hk⟩ := hr
              obtain rfl := hk rfl
              have hpages : ∀ d ∈ (List.range' 0 m.count).map m.describe, d.IsOnPages := by
                simp [Mapping.describe, Deed.IsOnPages]
              have hlive' : t.view.live m.space := htrace.live hpages hlive
              refine wp_note_of_view ht _ fun u hu hview => ?_
              refine wp_insertRegion_of_view (p := m.origin) hu (hview ▸ hlive') _ fun x hx hview' => ?_
              rw [hview] at hview'
              have hrecord : Does (.record m.origin m.region) t.view x.view := hview' ▸ .record hlive'
              rw [← List.range_eq_range'] at htrace
              exact ⟨hx, _, htrace.append (.single hrecord), rfl, hfits, hfree, rfl⟩
            · obtain ⟨k, rfl, _⟩ := hr
              exact ⟨ht, _, htrace, k, by rw [List.range_eq_range']⟩

end Paging

end DemandPaging
