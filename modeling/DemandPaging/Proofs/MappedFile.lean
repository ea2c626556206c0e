import DemandPaging.Proofs.FileRun

/-!
A mapping behaves as its file. A load through it yields the byte that was stored last, and once it has ended, the file
has all that was stored.
-/

namespace DemandPaging

variable {m : Mapping} {data : Bytes} {v w : View} {s t : System} {ds : List Deed} {p : PageId}

/-- A page over a window that can be read can be filled. -/
theorem View.not_cannotFill {kind : PageKind} {f : FileWindow} (hwindow : kind.window? = some f)
    (hreadable : f.IsReadable (v.file f.file)) : ¬ v.CannotFill kind := by
  cases kind with
  | pending q =>
    cases q with
    | anon source => cases hwindow
    | file f =>
      obtain rfl := Option.some.inj hwindow
      exact not_not_intro hreadable
  | anon slot => cases hwindow
  | file f =>
    obtain rfl := Option.some.inj hwindow
    exact not_not_intro hreadable

namespace Mapping

/-- The page of the byte at `k`, and the place of the byte in it. -/
theorem pageDown_add (hm : m.start.offset = 0) (k : Nat) :
    (⟨m.start.toNat + k⟩ : VirtAddr).pageDown = m.addr (k / pageSize) ∧
      (⟨m.start.toNat + k⟩ : VirtAddr).offset = k % pageSize := VirtAddr.pageDown_add_of_aligned hm k

/-- The byte at `k` is under the window of its page. -/
theorem mod_lt_readBytes {k : Nat} (hk : k < m.covered) :
    k / pageSize < m.count ∧ k % pageSize < (m.window (k / pageSize)).readBytes ∧
      (m.window (k / pageSize)).offset + k % pageSize = m.offset + k := by
  have hsum := Nat.div_add_mod' k pageSize
  have hmod : k % pageSize < pageSize := Nat.mod_lt _ (by decide)
  refine ⟨lt_count_iff.2 (by omega), ?_, ?_⟩
  · simp only [window, FileWindow.new]
    omega
  · simp only [window, FileWindow.new]
    omega

/-- A mapping none of whose pages is left has given all its bytes to the file. -/
theorem Shows.data_eq (h : m.Shows data v) (hgone : ∀ i < m.count, v.pages (m.place i) = none) :
    (v.file m.file).data = data := by
  refine List.ext_getElem? fun k => ?_
  by_cases hk : m.offset ≤ k ∧ k < m.offset + m.covered
  · obtain ⟨j, rfl⟩ := Nat.exists_eq_add_of_le hk.1
    obtain ⟨hcount, hread, hposition⟩ := mod_lt_readBytes (by omega : j < m.covered)
    have hpart := (h.page _ hcount).part_of_bare fun page hpage => by
      rw [hgone _ hcount] at hpage
      cases hpage
    rw [← hposition, ← FileWindow.getElem?_part _ _ hread, hpart, FileWindow.getElem?_part _ _ hread]
  · exact h.outside k (by omega)

/-- What ends a mapping leaves its bytes in the file. -/
theorem Stands.data_eq (hs : m.Stands data v) (hv : v.Sound) (hm : m.Fits data.length) (h : Trace v ds w)
    (hds : ∀ d ∈ ds, m.Tolerates d ∧ d.store? = none) (hgone : ∀ i < m.count, w.pages (m.place i) = none) :
    (w.file m.file).data = data := by
  have hshows := h.shows hv hm hs.shows fun d hd => (hds d hd).1
  rw [storesOf_eq_nil fun d hd => (hds d hd).2, image_nil] at hshows
  exact hshows.data_eq hgone

theorem tolerates_of_clears {id : SpaceId} {d : Deed} (h : d.Clears id) : m.Tolerates d ∧ d.store? = none := by
  obtain rfl | ⟨va, rfl⟩ := h
  · exact ⟨trivial, rfl⟩
  · exact ⟨trivial, rfl⟩

/-- A page of the mapping can always be filled, so that only frames can be missing, or be refused by the page table. -/
theorem Stands.claimFails (hs : m.Stands data v) (hv : v.Sound) (hm : m.Fits data.length)
    (hsize : data.length < Word.limit) {i : Nat} (hi : i < m.count)
    {page : PageEntry} (hpage : v.pages (m.place i) = some page) {f : Failure}
    (hf : v.ClaimFails (m.place i) page.kind f) :
    f.IsShortage ∨ v.refuses (m.place i) ∧ f = MappingError.refusal := by
  obtain hshortage | ⟨w, hupkept, hcannot⟩ | hrefused := hf
  · exact .inl hshortage
  · have hafter := (hupkept.stands hv hm hs).shows
    have hend : (m.window i).offset + (m.window i).readBytes ≤ (w.file m.file).size := by
      rw [File.size, hafter.length]
      exact (window_le hi).trans hm.covered_le
    have hlimit : (m.window i).offset + (m.window i).readBytes < Word.limit :=
      Nat.lt_of_le_of_lt ((window_le hi).trans hm.covered_le) hsize
    have hreadable : (m.window i).IsReadable (w.file (m.window i).file) := hafter.serves.isReadable hlimit hend
    exact absurd hcannot (View.not_cannotFill ((hs.shows.page i hi).window?_eq hpage) hreadable)
  · exact .inr hrefused

namespace Stands

variable (hs : s.WellFormed) (hv : s.view.Sound) (hm : m.Fits data.length) (hstands : m.Stands data s.view)

include hv hm hstands in
theorem live : m.space ∈ s.spaces := by
  obtain ⟨page, hpage⟩ := Option.isSome_iff_exists.1 (hstands.isSome (isPlace_origin hm))
  exact (hv.page hpage).1

include hs hv hm hstands

theorem munmap : (((Call.munmap m.space m.start).outcome s).2.file m.file).data = data := by
  have hregion : s.view.regions ⟨m.space, m.start⟩ = some m.region := hstands.region
  have hmunmap := Paging.performs_munmap hs hv m.space m.start
  simp only [hregion] at hmunmap
  have hperforms : Paging.Performs (Call.munmap m.space m.start).run s fun _ ds t =>
      (∀ d ∈ ds, d = .forget ⟨m.space, m.start⟩ ∨ ∃ a ∈ m.region.addrs, d = .remove ⟨m.space, a.pageDown⟩) ∧
      (s.view.setRegion ⟨m.space, m.start⟩ none).Freed (fun p => ∃ a ∈ m.region.addrs, p = ⟨m.space, a.pageDown⟩)
        t.view :=
    hmunmap.bind_pure (fun _ _ _ hr => ⟨hr.1, hr.2.1⟩) fun _ _ _ hr => ⟨hr.1, hr.2.1⟩
  obtain ⟨_, ds, htrace, hds, hgone⟩ := hperforms.outcome
  refine hstands.data_eq hv hm htrace (fun d hd => ?_) fun i hi => (hgone.gone ?_).1
  · obtain rfl | ⟨a, _, rfl⟩ := hds d hd
    · exact ⟨trivial, rfl⟩
    · exact ⟨trivial, rfl⟩
  · refine ⟨m.addr i, addr_mem_addrs hi, ?_⟩
    rw [VirtAddr.pageDown_of_aligned (m.offset_addr hm.start_aligned i)]
    rfl

theorem teardown : (((Call.teardown m.space).outcome s).2.file m.file).data = data := by
  have hperforms : Paging.Performs (Call.teardown m.space).run s fun _ ds t =>
      (∀ d ∈ ds, d.Clears m.space) ∧ (s.view.withoutRegions m.space).Freed (·.space = m.space) t.view :=
    (Paging.performs_teardown hs hv (hstands.live hv hm)).bind_pure (fun _ _ _ hr => hr.2) fun _ _ _ hr => hr.2
  obtain ⟨_, ds, htrace, hds, hgone⟩ := hperforms.outcome
  exact hstands.data_eq hv hm htrace (fun d hd => tolerates_of_clears (hds d hd)) fun i _ => (hgone.gone rfl).1

theorem drop : (((Call.drop m.space).outcome s).2.file m.file).data = data := by
  have hperforms : Paging.Performs (Call.drop m.space).run s fun _ ds t =>
      (∀ d ∈ ds, d.Clears m.space ∨ d = .finish m.space) ∧ View.Freed (·.space = m.space)
        { s.view.withoutRegions m.space with live := fun id => id ≠ m.space ∧ s.view.live id } t.view :=
    (Paging.performs_drop hs hv (hstands.live hv hm)).bind_pure (fun _ _ _ hr => hr.2) fun _ _ _ hr => hr.2
  obtain ⟨_, ds, htrace, hds, hgone⟩ := hperforms.outcome
  refine hstands.data_eq hv hm htrace (fun d hd => ?_) fun i _ => (hgone.gone rfl).1
  obtain hd | rfl := hds d hd
  · exact tolerates_of_clears hd
  · exact ⟨trivial, rfl⟩

/-- A load at `k` yields the byte that is there, unless there is no frame for its page, or its page may not be
mapped. -/
theorem load (hsize : data.length < Word.limit) {k : Nat} (hk : k < m.covered) (sp : Nat) :
    match ((Call.load m.space ⟨m.start.toNat + k⟩ sp).outcome s).1 with
    | .ok a => ∃ b, a = .byte b ∧ data[m.offset + k]? = some b
    | .error f => f.IsShortage ∨
        s.view.refuses ⟨m.space, VirtAddr.pageDown ⟨m.start.toNat + k⟩⟩ ∧ f = MappingError.refusal := by
  set c := Call.load m.space ⟨m.start.toNat + k⟩ sp with hc
  have hadmissible : c.Admissible s :=
    ⟨fun id hid => (Option.mem_some_iff.1 hid) ▸ hstands.live hv hm, fun _ h => (by cases h), fun _ h => by cases h⟩
  obtain ⟨hpage, hoffset⟩ := m.pageDown_add hm.start_aligned k
  obtain ⟨hcount, hread, hposition⟩ := mod_lt_readBytes hk
  obtain ⟨ht, ds, htrace, hexplains⟩ := System.exists_explains hs hv hadmissible
  have hspared : m.IsSparedBy s c := trivial
  have hafter := htrace.stands hv hm hstands (hspared.aloneIn hv)
      (hspared.permits hadmissible hv hm hstands htrace hexplains)
  rw [List.prefix_nil.1 hexplains.stores, image_nil] at hafter
  have htells := hexplains.tells
  generalize (c.outcome s).1 = r at htells ⊢
  simp only [hc, Call.Tells, hpage, hoffset] at htells
  cases r with
  | ok a =>
    obtain ⟨b, rfl, ⟨content, ⟨page, pa, hpage', hframe, hcontent⟩, hbyte⟩, _⟩ := htells
    refine ⟨b, rfl, ?_⟩
    cases hafter.shows.page _ hcount with
    | away haway =>
      rw [(haway page hpage').1] at hframe
      cases hframe
    | resident hsome _ hframe' _ hcontent' hbytes =>
      obtain rfl := Option.some.inj (hsome.symm.trans hpage')
      obtain rfl := Option.some.inj (hframe'.symm.trans hframe)
      obtain rfl := Option.some.inj (hcontent'.symm.trans hcontent)
      rw [← hposition, ← FileWindow.getElem?_part _ _ hread, ← hbytes, FileWindow.getElem?_bytesOf _ _ hread, hbyte]
  | error f =>
    obtain ⟨page, hsome⟩ := Option.isSome_iff_exists.1 (hstands.present _ hcount)
    have hstart := hm.start_ne
    have hlimit := hm.limit_le
    have hcovered : m.covered ≤ m.count * pageSize := by
      rw [count]
      simp only [pageSize]
      omega
    obtain hzero | hkernel | hfails := htells page hsome
    · omega
    · omega
    · rw [hpage]
      exact hstands.claimFails hv hm hsize hcount hsome hfails

end Stands

end Mapping

namespace System

variable {u : System} {id : SpaceId} {start : VirtAddr} {length offset : Nat} {writable : Bool} {file : FileId}

/-- A mapping that was just made is in place, and has the bytes of the file. -/
theorem stands_of_mmap (hs : s.WellFormed) (hv : s.view.Sound)
    (hc : (Call.mmap id start length writable file offset).Admissible s) {a : Answer}
    (hrun : (Call.mmap id start length writable file offset).outcome s = (.ok a, t))
    (hm : m = .ofRequest id start length writable file offset (s.file file).size) (hserves : (s.file file).Serves)
    (halone : ∀ p page f, s.page? p = some page → page.kind.window? = some f → f.file ≠ file) :
    t.WellFormed ∧ t.view.Sound ∧ m.Fits (s.file file).data.length ∧ m.Stands (s.file file).data t.view := by
  have hfile : m.file = file := by rw [hm]; rfl
  have hperforms : Paging.Performs (Call.mmap id start length writable file offset).run s fun r ds _ =>
      ∀ a, r = .ok a → m.Fits (s.file file).size ∧ (∀ i < m.count, s.view.pages (m.place i) = none) ∧
        ds = m.deeds :=
    (Paging.performs_mmap hs hv (hc.space _ rfl) start length writable file offset hm).bind_pure
      (fun _ _ _ hr _ _ => hr.2) fun _ _ _ _ _ h => by cases h
  obtain ⟨ht, ds, htrace, hr⟩ := hperforms.outcome
  rw [hrun] at ht htrace hr
  obtain ⟨hfits, hfree, rfl⟩ := hr a rfl
  have hshows : m.Shows (s.file file).data s.view := by
    rw [← hfile] at hfits hserves ⊢
    refine .start (v := s.view) hfits hserves hfree fun p f hf => ?_
    obtain ⟨page, hpage, hwindow⟩ := Option.bind_eq_some_iff.1 hf
    exact hfile ▸ halone p page f hpage hwindow
  refine ⟨ht, htrace.sound hv, hfits, ?_, fun i hi => htrace.isSome_of_mapping ⟨i, hi, rfl⟩, ?_⟩
  · have hafter := htrace.shows hv hfits hshows fun d hd => by
      obtain ⟨i, hi, rfl⟩ | rfl := Mapping.mem_deeds.1 hd
      · exact .inl ⟨i, hi, rfl⟩
      · trivial
    rwa [storesOf_eq_nil fun d hd => by obtain ⟨i, hi, rfl⟩ | rfl := Mapping.mem_deeds.1 hd <;> rfl,
      Mapping.image_nil] at hafter
  · rw [htrace.regions_of_mapping]
    exact Function.update_self ..

/-- A mapping behaves as the file. As long as nothing else uses the file, a load yields the byte that was stored last or
the file's own, unless no frame is left for the page or the page table refuses to map it. Once the mapping has ended,
the file has its own bytes but for those that were stored. -/
theorem Reachable.mapping_as_file (h : s.Reachable) (hc : (Call.mmap id start length writable file offset).Admissible s)
    {a : Answer} (hmap : (Call.mmap id start length writable file offset).outcome s = (.ok a, t))
    (hm : m = .ofRequest id start length writable file offset (s.file file).size)
    (hsize : (s.file file).size < Word.limit) (hserves : (s.file file).Serves)
    (halone : ∀ p page f, s.page? p = some page → page.kind.window? = some f → f.file ≠ file) {sts : List Store}
    (hrun : m.Run t sts u) :
    (∀ k < min length ((s.file file).size - offset), ∀ sp,
      match ((Call.load id ⟨start.toNat + k⟩ sp).outcome u).1 with
      | .ok a => ∃ b, a = .byte b ∧ (m.image (s.file file).data sts)[offset + k]? = some b
      | .error f => f.IsShortage ∨
          u.view.refuses ⟨id, VirtAddr.pageDown ⟨start.toNat + k⟩⟩ ∧ f = MappingError.refusal) ∧
    ∀ c ∈ [Call.munmap id start, .teardown id, .drop id],
      ((c.outcome u).2.file file).data = m.image (s.file file).data sts := by
  obtain ⟨ht, hv, hfits, hstands⟩ := stands_of_mmap h.wellFormed h.sound hc hmap hm hserves halone
  obtain ⟨hu, hv', hstands'⟩ := hrun.stands ht hv hfits hstands
  have hfits' : m.Fits (m.image (s.file file).data sts).length := by rwa [Mapping.length_image]
  obtain ⟨rfl, rfl, rfl, rfl, hcovered⟩ : m.space = id ∧ m.start = start ∧ m.file = file ∧ m.offset = offset ∧
      m.covered = min length ((s.file file).size - offset) := by
    rw [hm]
    exact ⟨rfl, rfl, rfl, rfl, rfl⟩
  rw [← hcovered]
  have hsize' : (m.image (s.file m.file).data sts).length < Word.limit := by rwa [Mapping.length_image]
  refine ⟨fun k hk sp => hstands'.load hu hv' hfits' hsize' hk sp, fun c hc => ?_⟩
  simp only [List.mem_cons, List.not_mem_nil, or_false] at hc
  obtain rfl | rfl | rfl := hc
  · exact hstands'.munmap hu hv' hfits'
  · exact hstands'.teardown hu hv' hfits'
  · exact hstands'.drop hu hv' hfits'

theorem page?_after_create (h : s.Initial) (p : PageId) : (Call.create.outcome s).2.page? p = none := by
  have hcreate : Call.create.Admissible s := ⟨fun _ h => (by cases h), fun _ h => (by cases h), fun _ h => by cases h⟩
  obtain ⟨_, ds, htrace, hexplains⟩ := exists_explains h.wellFormed h.sound hcreate
  refine htrace.pages_eq_none (fun d hd => ?_) (h.page?_eq_none p)
  obtain rfl : d = .create s.nextSpace := hexplains.allowed d hd
  exact not_false

/-- A small system with an address space and a file of six bytes. -/
def withFile : System := (Call.create.outcome (small { data := [10, 11, 12, 13, 14, 15] })).2

/-- The file is mapped. -/
def withMapping : System := ((Call.mmap 0 ⟨0x10000⟩ 6 true 0 0).outcome withFile).2

/-- A page of the mapping is written, leaves its frame to another page and comes back. -/
def comings : List Call :=
  [.store 0 ⟨0x10001⟩ 0 99, .addPage 0 .anon ⟨0x20000⟩ true .zero, .claim 0 ⟨0x20000⟩, .store 0 ⟨0x10007⟩ 0 55]

theorem reachable_withFile : withFile.Reachable := (Reachable.initial (initial_small _)).call (by decide +kernel)

theorem run_comings : (Mapping.ofRequest 0 ⟨0x10000⟩ 6 true 0 0 6).Run withMapping
    [⟨⟨0, ⟨0x10000⟩⟩, 1, [99]⟩, ⟨⟨0, ⟨0x10000⟩⟩, 7, [55]⟩] (withMapping.after comings) := by
  have hreach (cs : List Call) (hcs : withMapping.Admits cs) : (withMapping.after cs).Reachable :=
    (reachable_withFile.call (c := .mmap 0 ⟨0x10000⟩ 6 true 0 0) (by decide +kernel)).after hcs
  have hfirst := (Mapping.Run.start (m := .ofRequest 0 ⟨0x10000⟩ 6 true 0 0 6)).call_ok (hreach [] trivial)
    (c := .store 0 ⟨0x10001⟩ 0 99) (by decide +kernel) trivial (by decide +kernel)
  have hsecond := hfirst.call_ok (hreach (comings.take 1) (by decide +kernel))
    (c := .addPage 0 .anon ⟨0x20000⟩ true .zero) (by decide +kernel) (fun _ h => by cases h) (by decide +kernel)
  have hthird := hsecond.call_ok (hreach (comings.take 2) (by decide +kernel)) (c := .claim 0 ⟨0x20000⟩)
    (by decide +kernel) trivial (by decide +kernel)
  exact hthird.call_ok (hreach (comings.take 3) (by decide +kernel)) (c := .store 0 ⟨0x10007⟩ 0 55)
    (by decide +kernel) trivial (by decide +kernel)

/-- What was stored in the mapping is in the file in the end, but for what was stored behind the end of the file. -/
theorem exists_mapping_as_file : ∃ (s t u : System) (sts : List Store), s.Reachable ∧
    (s.file 0).data = [10, 11, 12, 13, 14, 15] ∧ (∃ a, (Call.mmap 0 ⟨0x10000⟩ 6 true 0 0).outcome s = (.ok a, t)) ∧
    (Mapping.ofRequest 0 ⟨0x10000⟩ 6 true 0 0 6).Run t sts u ∧
    ((Call.load 0 ⟨0x10001⟩ 0).outcome u).1 = .ok (.byte 99) ∧
    (((Call.munmap 0 ⟨0x10000⟩).outcome u).2.file 0).data = [10, 99, 12, 13, 14, 15] := by
  have hadmissible : (Call.mmap 0 ⟨0x10000⟩ 6 true 0 0).Admissible withFile := by decide +kernel
  obtain ⟨a, hmap⟩ : ∃ a, (Call.mmap 0 ⟨0x10000⟩ 6 true 0 0).outcome withFile = (.ok a, withMapping) := by
    have hok : ((Call.mmap 0 ⟨0x10000⟩ 6 true 0 0).outcome withFile).1.toBool = true := by decide +kernel
    unfold withMapping
    generalize (Call.mmap 0 ⟨0x10000⟩ 6 true 0 0).outcome withFile = o at hok ⊢
    obtain ⟨a | a, t⟩ := o
    · cases hok
    · exact ⟨a, rfl⟩
  have hserves : (withFile.file 0).Serves :=
    ⟨⟨by decide +kernel, by decide +kernel, by decide +kernel, by decide +kernel⟩, by decide +kernel⟩
  have halone (p : PageId) (page : PageEntry) (f : FileWindow) (hpage : withFile.page? p = some page) :
      page.kind.window? = some f → f.file ≠ 0 := by
    rw [withFile, page?_after_create (initial_small _)] at hpage
    cases hpage
  have hdata : (withFile.file 0).data = [10, 11, 12, 13, 14, 15] := by decide +kernel
  have hm : Mapping.ofRequest 0 ⟨0x10000⟩ 6 true 0 0 6 =
      .ofRequest 0 ⟨0x10000⟩ 6 true 0 0 (withFile.file 0).size := by rw [File.size, hdata]; rfl
  obtain ⟨hload, hend⟩ := Reachable.mapping_as_file reachable_withFile hadmissible hmap hm
    (by rw [File.size, hdata]; decide)
    hserves halone run_comings
  refine ⟨_, _, _, _, reachable_withFile, hdata, ⟨a, hmap⟩, run_comings, ?_, ?_⟩
  · have hok : ((Call.load 0 ⟨0x10001⟩ 0).outcome (withMapping.after comings)).1.toBool = true := by decide +kernel
    have hbyte := hload 1 (by rw [File.size, hdata]; decide) 0
    rw [hdata] at hbyte
    generalize ((Call.load 0 ⟨0x10001⟩ 0).outcome (withMapping.after comings)).1 = r at hok hbyte ⊢
    cases r with
    | error f => cases hok
    | ok a =>
      obtain ⟨b, rfl, hb⟩ := hbyte
      have h99 : (Mapping.image (.ofRequest 0 ⟨0x10000⟩ 6 true 0 0 6) [10, 11, 12, 13, 14, 15]
          [⟨⟨0, ⟨0x10000⟩⟩, 1, [99]⟩, ⟨⟨0, ⟨0x10000⟩⟩, 7, [55]⟩])[1]? = some 99 := by decide
      rw [Option.some.inj (hb.symm.trans h99)]
  · rw [hend _ (List.mem_cons_self ..), hdata]
    decide

end System

end DemandPaging
