import DemandPaging.Proofs.Calm
import DemandPaging.Proofs.DeviceAnswers
import DemandPaging.Proofs.Ends
import DemandPaging.Proofs.KeyedSequence
import DemandPaging.Proofs.Lenient

/-!
What no action disturbs, whatever fails: the registry of frames is a queue in order, the records of the swap device
agree with each other, page tables conform to their interface, and disk and files change by requests only.
-/

namespace DemandPaging

open Paging

namespace PageTable

variable {t t' : PageTable} {va : VirtAddr}

theorem Willing.of_map {pa : PhysAddr} {p : Permission} (h : t.Willing) (hmap : t.map va pa p = .ok t') :
    t'.Willing := by
  unfold PageTable.map at hmap
  split at hmap
  · cases hmap
  · split at hmap
    · cases hmap
    · exact Except.ok.inj hmap ▸ h.withEntries _

theorem Willing.of_unmap {r : PhysAddr × PageTable} (h : t.Willing) (hunmap : t.unmap va = .ok r) : r.2.Willing := by
  unfold PageTable.unmap at hunmap
  split at hunmap
  · cases hunmap
  · split at hunmap
    · exact Except.ok.inj hunmap ▸ h.withEntries _
    · cases hunmap

theorem Willing.of_update {f : EntryFlags → EntryFlags} (h : t.Willing) (hupdate : t.update va f = .ok t') :
    t'.Willing := by
  unfold PageTable.update at hupdate
  split at hupdate
  · cases hupdate
  · split at hupdate
    · exact Except.ok.inj hupdate ▸ h.withEntries _
    · cases hupdate

end PageTable

namespace System

variable {s t u : System} {e : Errno}

/-- What became of the files and the disk between `s` and `t` are requests to them. -/
structure Served (s t : System) : Prop where
  files : ∀ f, (s.file f).Served (t.file f)
  swap : s.pager.swap.Served t.pager.swap

/-- On the way from `s` to `t` the disk or a file returned `e`. -/
def Returned (s t : System) (e : Errno) : Prop :=
  s.pager.swap.Returned t.pager.swap e ∨ ∃ f, (s.file f).Returned (t.file f) e

theorem Served.refl (s : System) : s.Served s := ⟨fun _ => .refl _, .of_disk rfl⟩

theorem Served.trans (h : s.Served t) (h' : t.Served u) : s.Served u :=
  ⟨fun f => (h.files f).trans (h'.files f), h.swap.trans h'.swap⟩

theorem Returned.of_served (h : s.Served t) (h' : t.Returned u e) : s.Returned u e :=
  h'.imp (.of_served h.swap) fun ⟨f, hf⟩ => ⟨f, .of_served (h.files f) hf⟩

theorem Returned.served (h : s.Returned t e) (h' : t.Served u) : s.Returned u e :=
  h.imp (.served · h'.swap) fun ⟨f, hf⟩ => ⟨f, hf.served (h'.files f)⟩

theorem Served.of_pager {p : Pager} (h : s.pager.swap.Served p.swap) : s.Served { s with pager := p } :=
  ⟨fun _ => .refl _, h⟩

theorem file_setFile (s : System) (f : FileId) (file : File) (g : FileId) :
    (({ s with files := s.files.setIfInBounds f file } : System).file g = file ∧ g = f) ∨
      ({ s with files := s.files.setIfInBounds f file } : System).file g = s.file g := by
  have hview := View.file_setFile s.view f file g
  rw [← view_setFile, file_view, file_view] at hview
  split at hview
  next hg => exact .inl ⟨hview, hg.1⟩
  next => exact .inr hview

theorem Served.of_file {f : FileId} {file : File} (h : (s.file f).Served file) :
    s.Served { s with files := s.files.setIfInBounds f file } := by
  refine ⟨fun g => ?_, .of_disk rfl⟩
  obtain ⟨hfile, rfl⟩ | hfile := file_setFile s f file g
  · rw [hfile]
    exact h
  · rw [hfile]
    exact .refl _

/-- The registry is a queue in order, the records of the swap device agree with each other, and page tables conform to
their interface. -/
structure Orderly (s : System) : Prop where
  swap : s.pager.swap.WellFormed
  queue : ∃ l, s.pager.resident.Represents l
  tables : ∀ id, (s.space id).table.Willing

namespace Orderly

theorem withPager (h : s.Orderly) {p : Pager} (hswap : p.swap.WellFormed) (hqueue : ∃ l, p.resident.Represents l) :
    ({ s with pager := p } : System).Orderly :=
  ⟨hswap, hqueue, h.tables⟩

theorem withSwap (h : s.Orderly) {swap : SwapDevice} (hswap : swap.WellFormed) :
    ({ s with pager := { s.pager with swap := swap } } : System).Orderly :=
  h.withPager hswap h.queue

theorem modify (h : s.Orderly) {id : SpaceId} {g : Space → Space} (hg : (g (s.space id)).table.Willing) :
    ({ s with spaces := s.spaces.modify id g } : System).Orderly := by
  refine ⟨h.swap, h.queue, fun id' => ?_⟩
  by_cases hid : id ∈ s.spaces
  · rw [space_modify hid]
    split
    · exact hg
    · exact h.tables id'
  · rw [modify_spaces_of_not_mem hid]
    exact h.tables id'

end Orderly

end System

open DemandPaging.System

namespace Paging

variable {α β : Type} {s : System}

/-- The action leaves orderly what was orderly, and what it does to disk and files are requests. -/
def Keeps (x : Paging α) : Prop := Along System.Orderly System.Served x

theorem composable_keeps : Composable Keeps :=
  composable_along Served.refl Served.trans fun _ _ hs =>
    ⟨⟨hs.swap, hs.queue, hs.tables⟩, fun _ => .refl _, .of_disk rfl⟩

theorem keeps_space (id : SpaceId) : Keeps (space id) := fun s hs => ⟨hs, .refl s⟩

theorem keeps_throw (f : Failure) : Keeps (throw f : Paging α) := fun s hs => ⟨hs, .refl s⟩

theorem keeps_modifySpace (id : SpaceId) {g : Space → Space} (hg : ∀ sp, (g sp).table = sp.table) :
    Keeps (modifySpace id g) :=
  fun s hs => ⟨hs.modify (by rw [hg]; exact hs.tables id), fun _ => .refl _, .of_disk rfl⟩

theorem keeps_mapping (r : Except MappingError Unit) : Keeps (mapping r) := by
  intro s hs
  cases r <;> exact ⟨hs, .refl s⟩

/-- The page table of a space is replaced by one that conforms to its interface, or the request is refused. -/
theorem keeps_request {id : SpaceId} {x : PageTable → Except MappingError PageTable}
    (hx : ∀ {t t'}, t.Willing → x t = .ok t' → t'.Willing) : Keeps (request id x) := by
  intro s hs
  cases hresult : x (s.space id).table with
  | error e => exact wp_request_of_error (hs.tables id) hresult ⟨hs, .refl s⟩
  | ok t =>
    exact wp_request_of_ok (hs.tables id) hresult ⟨hs.modify (hx (hs.tables id) hresult), fun _ => .refl _, .of_disk rfl⟩

theorem keeps_unmapPage (id : SpaceId) (va : VirtAddr) (event : MappingError → Event) :
    Keeps (unmapPage id va event) := by
  have hP := composable_keeps
  refine hP.bind (keeps_request fun ht hunmap => ?_) fun r => ?_
  · obtain ⟨r, hr, rfl⟩ := PageTable.exists_of_unmap_map hunmap
    exact ht.of_unmap hr
  · cases r with
    | error e => exact hP.note _
    | ok _ => exact hP.pure _

theorem keeps_testAndClearAccessed (o : Occupant) : Keeps (testAndClearAccessed o) := by
  have hP := composable_keeps
  unfold testAndClearAccessed
  refine hP.bind (keeps_space _) fun sp => ?_
  split
  · refine hP.bind (keeps_request .of_update) fun r => ?_
    cases r with
    | error e => exact hP.bind (hP.note _) fun _ => hP.pure _
    | ok _ => exact hP.pure _
  · exact hP.pure _

theorem spacewise_keeps : Spacewise Keeps fun _ => True where
  toComposable := composable_keeps
  space _ := keeps_space _
  modifySpace _ _ := keeps_modifySpace _
  mapPage _ _ _ _ := composable_keeps.bind (keeps_request .of_map) keeps_mapping
  unmapPage _ := keeps_unmapPage _
  markDirty _ _ := composable_keeps.bind (keeps_request .of_update) keeps_mapping
  markAccessed _ _ := composable_keeps.bind (keeps_request .of_update) keeps_mapping
  testAndClearAccessed _ := keeps_testAndClearAccessed _

theorem keeps_modifyPager {g : Pager → Pager} (hg : ∀ p, (g p).resident = p.resident ∧ (g p).swap = p.swap) :
    Keeps (modifyPager g) := by
  intro s hs
  obtain ⟨hresident, hswap⟩ := hg s.pager
  exact ⟨hs.withPager (hswap ▸ hs.swap) (hresident ▸ hs.queue), .of_pager (.of_disk (by rw [hswap]))⟩

/-- What is done to the queue of resident frames leaves it in order. -/
theorem keeps_resident {g : Pager → Clock PhysAddr Occupant}
    (hg : ∀ p, (∃ l, p.resident.Represents l) → ∃ l, (g p).Represents l) :
    Keeps (modifyPager fun p => { p with resident := g p }) :=
  fun s hs => ⟨hs.withPager hs.swap (hg s.pager hs.queue), .of_pager (.of_disk rfl)⟩

theorem keeps_rotate : Keeps (modifyPager fun p => { p with resident := p.resident.rotate }) :=
  keeps_resident fun _ ⟨_, hl⟩ => ⟨_, (hl.answer .rotate).2⟩

theorem keeps_register (pa : PhysAddr) (o : Occupant) : Keeps (register pa o) :=
  keeps_resident fun _ ⟨_, hl⟩ => ⟨_, (hl.answer (.pushBack pa o)).2⟩

theorem keeps_unregister (pa : PhysAddr) : Keeps (unregister pa) := by
  intro s hs
  obtain ⟨l, hl⟩ := hs.queue
  simp only [unregister, wp_bind, wp_pager]
  obtain ⟨-, hremove, -, -⟩ | ⟨o, r, -, hremove, hr, -⟩ := hl.remove?_eq_entries pa
  · rw [hremove]
    exact ⟨hs, .refl s⟩
  · rw [hremove]
    exact ⟨hs.withPager hs.swap ⟨_, hr⟩, .of_pager (.of_disk rfl)⟩

theorem keeps_takeSlot : Keeps takeSlot := by
  intro s hs
  simp only [takeSlot, wp_bind, wp_pager]
  cases halloc : s.pager.swap.alloc? with
  | none => exact ⟨hs, .refl s⟩
  | some found =>
    obtain ⟨ht, hdisk, -⟩ := hs.swap.of_alloc? halloc
    exact ⟨hs.withSwap ht, .of_pager (.of_disk hdisk)⟩

theorem keeps_freeSlot (slot : SwapSlot) : Keeps (freeSlot slot) := by
  intro s hs
  simp only [freeSlot, wp_bind, wp_pager]
  by_cases hslot : slot.index ∈ s.pager.swap.slots.members
  · obtain ⟨t, hfree, ht, hdisk, -⟩ := hs.swap.free hslot
    rw [hfree]
    exact ⟨hs.withSwap ht, .of_pager (.of_disk hdisk)⟩
  · rw [SwapDevice.free_of_notMem hslot]
    exact ⟨hs, .refl s⟩

theorem keeps_onFile (f : FileId) {x : EStateM Failure File α}
    (hok : ∀ {file a file'}, x file = .ok a file' → file.Served file')
    (herror : ∀ {file e file'}, x file = .error e file' → file.Served file') : Keeps (onFile f x) := by
  intro s hs
  have hafter {file : File} (h : (s.file f).Served file) :
      ({ s with files := s.files.setIfInBounds f file } : System).Orderly ∧
        s.Served { s with files := s.files.setIfInBounds f file } :=
    ⟨⟨hs.swap, hs.queue, hs.tables⟩, .of_file h⟩
  unfold wp onFile
  cases hresult : x (s.file f) with
  | ok a file => exact hafter (hok hresult)
  | error e file => exact hafter (herror hresult)

theorem keeps_onSwapDevice {x : EStateM Errno SwapDevice α} (hok : ∀ {t a t'}, t.WellFormed → x t = .ok a t' →
    t'.WellFormed ∧ t.Served t') (herror : ∀ {t e t'}, t.WellFormed → x t = .error e t' →
    t'.WellFormed ∧ t.Served t') : Keeps (onSwapDevice x) := by
  intro s hs
  unfold wp onSwapDevice
  cases hresult : x s.pager.swap with
  | ok a t =>
    obtain ⟨ht, hserved⟩ := hok hs.swap hresult
    exact ⟨hs.withSwap ht, .of_pager hserved⟩
  | error e t =>
    obtain ⟨ht, hserved⟩ := herror hs.swap hresult
    exact ⟨hs.withSwap ht, .of_pager hserved⟩

theorem keeps_writeFile (f : FileId) (position : Nat) (bs : Bytes) : Keeps (onFile f (File.write position bs)) := by
  refine keeps_onFile f (fun {file a file'} h => ?_) fun {file e file'} h => ?_
  · have hwrite := File.write_served position bs file
    rw [h] at hwrite
    exact hwrite.1
  · have hwrite := File.write_served position bs file
    rw [h] at hwrite
    exact hwrite.1

theorem keeps_readFile (f : FileId) (position count : Nat) :
    Keeps (onFile f fun file => let (t, file) := File.read position count file; .ok t file) :=
  keeps_onFile f (fun {file a file'} h => by
    rw [EStateM.Result.ok.injEq] at h
    exact h.2 ▸ (File.read_served position count file).1) fun h => by cases h

theorem keeps_readSlot (slot : SwapSlot) :
    Keeps (onSwapDevice fun t => let (r, t) := SwapDevice.read slot t; .ok r t) :=
  keeps_onSwapDevice (fun {t a t'} ht h => by
    rw [EStateM.Result.ok.injEq] at h
    exact h.2 ▸ ⟨(SwapDevice.read_spec slot t).1.wellFormed ht, (SwapDevice.read_returned slot t).1⟩) fun _ h => by
      cases h

theorem keeps_writeSlot (slot : SwapSlot) (content : PageContent) :
    Keeps (onSwapDevice (SwapDevice.write slot content)) := by
  have hrequests := SwapDevice.Requests.write slot content
  refine keeps_onSwapDevice (fun {t a t'} ht h => ⟨?_, hrequests.ok h⟩) fun {t e t'} ht h =>
    ⟨?_, (hrequests.error h).1⟩
  · have hwrite := SwapDevice.write_spec slot content t
    rw [h] at hwrite
    exact hwrite.1.wellFormed ht
  · have hwrite := SwapDevice.write_spec slot content t
    rw [h] at hwrite
    exact hwrite.wellFormed ht

theorem keeps_duplicateSlot (slot : SwapSlot) : Keeps (onSwapDevice (SwapDevice.duplicate slot)) := by
  refine keeps_onSwapDevice (fun {t a t'} ht h => ⟨?_, SwapDevice.served_of_duplicate h⟩) fun {t e t'} ht h =>
    ⟨?_, (SwapDevice.returned_of_duplicate h).1⟩
  · have hduplicate := ht.duplicate slot
    rw [h] at hduplicate
    exact hduplicate.1
  · have hduplicate := ht.duplicate slot
    rw [h] at hduplicate
    exact hduplicate.1

theorem keeps_create {table : PageTable} (htable : table.Willing) : Keeps (create table) := by
  intro s hs
  refine ⟨⟨hs.swap, hs.queue, fun id => ?_⟩, fun _ => .refl _, .of_disk rfl⟩
  have hspace := space_insert s.toWorld s.nextSpace { table := table } id
  change ((World.space { s.toWorld with spaces := _ } id).table).Willing
  rw [hspace]
  split
  · exact htable
  · exact hs.tables id

/-- No action disturbs the order, whatever fails. -/
theorem lenient_keeps : Lenient Keeps fun _ => True where
  toSpacewise := spacewise_keeps
  throw := keeps_throw
  create := keeps_create
  finish {id} _ s hs := by
    refine ⟨⟨hs.swap, hs.queue, fun id' => ?_⟩, fun _ => .refl _, .of_disk rfl⟩
    have hspace := space_erase s.toWorld id id'
    change ((World.space { s.toWorld with spaces := _ } id').table).Willing
    rw [hspace]
    split
    · exact PageTable.willing_default
    · exact hs.tables id'
  resident hg s hs := hg s.pager (fun _ _ _ => trivial) s hs
  modifyPager hg := keeps_modifyPager fun p => ⟨(hg p).1, (hg p).2.1⟩
  rotate := keeps_rotate
  register pa _ _ := keeps_register pa _
  unregister pa _ hg := composable_keeps.bind (keeps_unregister pa) fun r => hg r fun _ _ => trivial
  takeSlot := keeps_takeSlot
  freeSlot := keeps_freeSlot
  readFile := keeps_readFile
  writeFile := keeps_writeFile
  readSlot := keeps_readSlot
  writeSlot := keeps_writeSlot
  duplicateSlot := keeps_duplicateSlot

/-! ### Calls -/

section Calls

variable {I : System → Prop} {R : System → System → Prop}

/-- A fork may release what was copied, and the number of the child with it. -/
theorem along_fork (hP : Lenient (Along I R) fun _ => True)
    (hnumber : ∀ next, Along I R (modify fun s : System => { s with nextSpace := next })) (src : SpaceId)
    {table : PageTable} (htable : table.Willing) : Along I R (fork src table) := by
  have hP' := hP.stepwise
  intro s hs
  have hconclude (child : SpaceId) (r : Except Failure Unit) : Along I R (concludeFork s.nextSpace child r) := by
    cases r with
    | ok _ => exact hP.pure child
    | error f =>
      apply hP.bind (hP'.drop trivial)
      intro _
      exact hP.bind (hnumber _) fun _ => hP.throw f
  unfold wp
  rw [fork_apply]
  refine hP.bind (hP.create htable) (fun child => ?_) s hs
  exact hP.bind (hP.attempt (hP'.duplicate trivial trivial)) fun r => hconclude child r

theorem along_run (hP : Lenient (Along I R) fun _ => True)
    (hnumber : ∀ next, Along I R (modify fun s : System => { s with nextSpace := next })) {c : Call}
    (hfork : ∀ id table, c = .fork id table → table.Willing) : Along I R c.run := by
  refine hP.stepwise.run (fun _ _ => trivial) (fun _ _ => trivial) (fun _ _ _ _ => hP.throw _) ?_
  intro id table hc
  exact along_fork hP hnumber id (hfork id table hc)

end Calls

theorem keeps_run {c : Call} (hfork : ∀ id table, c = .fork id table → table.Willing) : Keeps c.run :=
  along_run lenient_keeps (fun _ _ hs => ⟨⟨hs.swap, hs.queue, hs.tables⟩, fun _ => .refl _, .of_disk rfl⟩) hfork

end Paging

end DemandPaging
