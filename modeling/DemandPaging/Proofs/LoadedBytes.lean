import DemandPaging.Proofs.FailedClaim
import DemandPaging.Proofs.Serving

/-!
What a page is loaded with. How a load ends, and with which bytes, is told from what stands behind the page: it depends on
no other page, nor on the frame, nor on what was in the frame before. A frame that was filled in part and given up is all
zeros before anybody gets it again.
-/

namespace DemandPaging

open Paging

/-! ### What stands behind a page -/

/-- What becomes of reads of `ns`, one after the other. -/
def Faults.fates : Faults → List Nat → List Fate
  | _, [] => []
  | f, n :: ns => (f.onRead n).1 :: (f.onRead n).2.fates ns

namespace Fate

/-- The error of a disk that answers so. A disk has no end in front of its sectors. -/
def refusal? : Fate → Option Errno
  | refused e => some e
  | _ => none

/-- The error of a load from a file that answers so. -/
def loadError? : Fate → Option Errno
  | served => none
  | refused e => some e
  | ended => some .ioError

end Fate

/-- The bytes that stand behind a page, and what becomes of the requests that fetch them. -/
structure Backing where
  bytes : Bytes
  fates : List Fate
  deriving DecidableEq

namespace FileWindow

/-- The blocks that hold bytes under the window, in a file with the bytes `data`. -/
def blocks (w : FileWindow) (data : Bytes) : List Nat := (Piece.run w.offset (w.part data).length).map Piece.page

/-- What the window shows of the file `f`. -/
def backing (w : FileWindow) (f : File) : Backing := ⟨w.part f.data, f.faults.fates (w.blocks f.data)⟩

/-- How a load of the window ends. All its bytes must be there; zeros follow them. -/
def load (w : FileWindow) (b : Backing) : Except Failure PageContent :=
  match Word.add w.offset w.readBytes, b.fates.findSome? Fate.loadError? with
  | .error o, _ => .error (.panic (.overflow o))
  | .ok _, some e => .error (.error e)
  | .ok _, none =>
    if b.bytes.length = w.readBytes then .ok (Content.ofBytes pageSize b.bytes) else .error (.error .ioError)

end FileWindow

namespace SwapSlot

/-- The sectors of the slot. -/
def sectors (slot : SwapSlot) : List Nat := (List.range sectorsPerPage).map (slot.sector + ·)

/-- What the slot holds on the device `t`. -/
def backing (slot : SwapSlot) (t : SwapDevice) : Backing :=
  ⟨(t.content slot).toList, t.disk.toList.flatMap fun d => d.faults.fates slot.sectors⟩

/-- How a load from the slot ends. -/
def load (b : Backing) : Except Failure PageContent :=
  match b.fates.findSome? Fate.refusal? with
  | some e => .error (.error e)
  | none => .ok (Content.ofBytes pageSize b.bytes)

end SwapSlot

/-- What stands behind a page of kind `kind` that is in no frame. -/
def System.backing (s : System) : PageKind → Backing
  | .pending (.anon .zero) | .anon none => ⟨[], []⟩
  | .pending (.anon (.file w)) | .pending (.file w) | .file w => w.backing (s.file w.file)
  | .anon (some slot) => slot.backing s.pager.swap

/-- How a load of a page of kind `kind` ends, if `b` stands behind it. -/
def PageKind.load (b : Backing) : PageKind → Except Failure PageContent
  | .pending (.anon .zero) => .ok (Content.zero pageSize)
  | .anon none => .error (.error .ioError)
  | .pending (.anon (.file w)) | .pending (.file w) | .file w => w.load b
  | .anon (some _) => SwapSlot.load b

/-- Why a load that is to move `count` bytes fails after the transfer `t`. -/
def Transfer.shortfall? (t : Transfer) (count : Nat) : Option Failure :=
  match t.failure with
  | some f => some f
  | none => if t.bytes.length = count then none else some (.error .ioError)

/-! ### Reads of files -/

namespace File

/-- A block within the file is read unless the device answers otherwise. -/
theorem readBlock_eq {b : Nat} {f : File} (hb : blockStart b < f.size) :
    ∃ f', f'.data = f.data ∧ f'.faults = (f.faults.onRead b).2 ∧
      readBlock b f = match (f.faults.onRead b).1 with
        | .served => .ok (some (f.block b)) f'
        | .refused e => .error e f'
        | .ended => .ok none f' := by
  rcases hfate : f.faults.onRead b with ⟨fate, faults⟩
  cases fate with
  | refused e =>
    refine ⟨{ f with faults := faults }, rfl, rfl, ?_⟩
    simp [readBlock, get_apply, bind, EStateM.bind, throw_apply, set_apply, hfate]
  | ended =>
    refine ⟨{ f with faults := faults, traffic := { f.traffic with reads := f.traffic.reads + 1 } }, rfl, rfl, ?_⟩
    simp [readBlock, get_apply, bind, EStateM.bind, set_apply, pure_apply, hfate]
  | served =>
    refine ⟨{ f with faults := faults, traffic := { f.traffic with reads := f.traffic.reads + 1 } }, rfl, rfl, ?_⟩
    simp [readBlock, get_apply, bind, EStateM.bind, set_apply, pure_apply, hfate, Nat.not_le.2 hb]

/-- The first request that is not served decides how a read within the file ends. -/
theorem shortfall?_readPieces {fuel start count : Nat} {f : File} (hfuel : count ≤ fuel) (hend : start + count ≤ f.size) :
    (readPieces (Piece.cut fuel start count) f).1.shortfall? count =
      ((f.faults.fates ((Piece.cut fuel start count).map Piece.page)).findSome? Fate.loadError?).map .error := by
  induction fuel generalizing start count f with
  | zero =>
    obtain rfl : count = 0 := by omega
    rfl
  | succ fuel ih =>
    by_cases hcount : count = 0
    · subst hcount
      rfl
    rw [Piece.cut_succ hcount]
    set n := min (pageSize - start % pageSize) count with hn
    have hmod : start % pageSize < pageSize := Nat.mod_lt _ (by decide)
    have hpage : blockStart (Piece.page ⟨start, n⟩) + start % pageSize = start := Piece.page_add_offset ⟨start, n⟩
    obtain ⟨f', hdata, hfaults, hread⟩ := readBlock_eq (b := Piece.page ⟨start, n⟩) (f := f) (by omega)
    have hsize : f'.size = f.size := congrArg List.length hdata
    rw [List.map_cons, Faults.fates, List.findSome?_cons, readPieces, hread]
    cases (f.faults.onRead (Piece.page ⟨start, n⟩)).1 with
    | refused e => rfl
    | ended => simp [Fate.loadError?, Transfer.shortfall?, Transfer.done, Ne.symm hcount]
    | served =>
      have hrest : (readPieces (Piece.cut fuel (start + n) (count - n)) f').1.shortfall? (count - n) =
          ((f'.faults.fates ((Piece.cut fuel (start + n) (count - n)).map Piece.page)).findSome? Fate.loadError?).map
            .error := ih (by omega) (by omega)
      rw [hfaults] at hrest
      have hlength : (Content.slice (f.block (Piece.page ⟨start, n⟩)) (Piece.offset ⟨start, n⟩) n).length = n := by
        rw [Content.length_slice, Piece.offset]
        exact Nat.min_eq_left (by simp only; omega)
      have hmoved (k : Nat) : n + k = count ↔ k = count - n := by omega
      simp only [Fate.loadError?, ← hrest, Transfer.shortfall?, Transfer.after, List.length_append, hlength, hmoved]

end File

namespace Transfer

variable {t : Transfer} {m n : Nat}

/-- A transfer of less than was asked for fails in any case. -/
theorem shortfall?_of_lt (h : t.bytes.length < n) : t.shortfall? n = some ((t.shortfall? m).getD (.error .ioError)) := by
  unfold shortfall?
  cases t.failure with
  | some f => rfl
  | none =>
    simp only [if_neg (Nat.ne_of_lt h)]
    split <;> rfl

end Transfer

/-- The failure, if that is how something ended. -/
def failure? {α : Type} : Except Failure α → Option Failure
  | .ok _ => none
  | .error f => some f

theorem failure?_eq_none {α : Type} {x : Except Failure α} : failure? x = none ↔ ∃ a, x = .ok a := by
  cases x <;> simp [failure?]

theorem failure?_eq_some {α : Type} {x : Except Failure α} {f : Failure} : failure? x = some f ↔ x = .error f := by
  cases x <;> simp [failure?]

namespace FileWindow

variable {w : FileWindow} {f : File}

/-- A read of the bytes under the window comes out short just if a load of the window fails. -/
theorem shortfall?_read (w : FileWindow) (f : File) :
    (File.read w.offset w.readBytes f).1.shortfall? w.readBytes = failure? (w.load (w.backing f)) := by
  unfold File.read load
  cases hadd : Word.add w.offset w.readBytes with
  | error o => rfl
  | ok limit =>
    obtain ⟨-, rfl⟩ := Word.add_eq_ok_iff.1 hadd
    have hcount : min f.size (w.offset + w.readBytes) - w.offset = (w.part f.data).length := by
      rw [part, List.length_take, List.length_drop, ← File.size]
      omega
    have hpieces : (File.readPieces (Piece.run w.offset (w.part f.data).length) f).1.shortfall? (w.part f.data).length =
          ((w.backing f).fates.findSome? Fate.loadError?).map .error ∧
        (File.readPieces (Piece.run w.offset (w.part f.data).length) f).1.bytes.length ≤ (w.part f.data).length := by
      by_cases hempty : f.size ≤ w.offset
      · have hnone : (w.part f.data).length = 0 := by omega
        rw [backing, blocks, hnone]
        exact ⟨rfl, Nat.le_refl 0⟩
      · have hend : w.offset + (w.part f.data).length ≤ f.size := by omega
        refine ⟨File.shortfall?_readPieces (Nat.le_refl _) hend, ?_⟩
        exact (File.readPieces_cut _ _ _ f hend).2.length_le.trans (List.length_take_le _ _)
    have hbytes : (w.backing f).bytes.length = (w.part f.data).length := rfl
    simp only [hcount, hbytes]
    obtain ⟨hpieces, hmoved⟩ := hpieces
    by_cases hfull : (w.part f.data).length = w.readBytes
    · rw [hfull] at hpieces ⊢
      rw [hpieces]
      cases (w.backing f).fates.findSome? Fate.loadError? with
      | none => simp [failure?]
      | some e => rfl
    · have hle : (w.part f.data).length ≤ w.readBytes := List.length_take_le _ _
      rw [Transfer.shortfall?_of_lt (m := (w.part f.data).length) (by omega), hpieces]
      cases (w.backing f).fates.findSome? Fate.loadError? with
      | none => simp [failure?, hfull]
      | some e => rfl

end FileWindow

/-! ### Reads of slots -/

namespace Disk

/-- A sector of the disk is read unless the device refuses to. -/
theorem read_eq {n : Nat} {d : Disk} (hn : n < d.sectorCount) :
    ∃ d', d'.sectors = d.sectors ∧ d'.faults = (d.faults.onRead n).2 ∧
      read n d = match (d.faults.onRead n).1.refusal? with
        | none => .ok (d.sector n) d'
        | some e => .error e d' := by
  rcases hfate : d.faults.onRead n with ⟨fate, faults⟩
  cases fate with
  | refused e =>
    refine ⟨{ d with faults := faults }, rfl, rfl, ?_⟩
    simp [read, get_apply, bind, EStateM.bind, throw_apply, set_apply, Nat.not_le.2 hn, hfate, Fate.refusal?]
  | _ =>
    refine ⟨{ d with faults := faults, traffic := { d.traffic with reads := d.traffic.reads + 1 } }, rfl, rfl, ?_⟩
    simp [read, get_apply, bind, EStateM.bind, set_apply, pure_apply, Nat.not_le.2 hn, hfate, Fate.refusal?]

end Disk

namespace SwapDevice

/-- The first sector that is refused decides how a read of sectors ends. -/
theorem failure_readSectors {ns : List Nat} {d : Disk} (hns : ∀ n ∈ ns, n < d.sectorCount) :
    (readSectors ns d).1.failure = ((d.faults.fates ns).findSome? Fate.refusal?).map .error := by
  induction ns generalizing d with
  | nil => rfl
  | cons n ns ih =>
    obtain ⟨d', hsectors, hfaults, hread⟩ := Disk.read_eq (hns n (List.mem_cons_self ..))
    rw [Faults.fates, List.findSome?_cons, readSectors, hread]
    cases (d.faults.onRead n).1.refusal? with
    | some e => rfl
    | none =>
      have hrest := ih (d := d') fun m hm => by
        rw [Disk.sectorCount_congr hsectors]
        exact hns m (List.mem_cons_of_mem _ hm)
      rw [hfaults] at hrest
      exact hrest

/-- The sectors of a slot are sectors of the disk. -/
theorem WellFormed.sector_lt {t : SwapDevice} (h : t.WellFormed) {slot : SwapSlot}
    (hslot : slot.index ∈ t.slots.members) {d : Disk} (hd : t.disk = some d) : ∀ n ∈ slot.sectors, n < d.sectorCount := by
  intro n hn
  obtain ⟨i, hi, rfl⟩ := List.mem_map.1 hn
  have hindex : slot.index < t.capacity := IndexPool.lt_of_mem_members hslot
  have hsize : t.capacity * sectorsPerPage ≤ d.sectorCount := by
    have hsize := h.size
    rwa [hd] at hsize
  have hsectors : sectorsPerPage = 8 := rfl
  rw [List.mem_range, hsectors] at hi
  rw [hsectors] at hsize
  rw [SwapSlot.sector, hsectors]
  omega

/-- A read of a slot that holds a page fails just if a load from the slot does. -/
theorem WellFormed.failure_read {t : SwapDevice} (h : t.WellFormed) {slot : SwapSlot}
    (hslot : slot.index ∈ t.slots.members) :
    (SwapDevice.read slot t).1.failure = failure? (SwapSlot.load (slot.backing t)) := by
  cases hdisk : t.disk with
  | none =>
    have hindex : slot.index < t.capacity := IndexPool.lt_of_mem_members hslot
    rw [h.capacity_eq_zero hdisk] at hindex
    exact absurd hindex (Nat.not_lt_zero _)
  | some d =>
    have hfailure := failure_readSectors (h.sector_lt hslot hdisk)
    have hfates : (slot.backing t).fates = d.faults.fates slot.sectors := by
      rw [SwapSlot.backing, hdisk]
      exact List.append_nil _
    have hread : (SwapDevice.read slot t).1 = (readSectors slot.sectors d).1 := by
      rw [SwapDevice.read, hdisk]
      rfl
    rw [hread, hfailure, SwapSlot.load, hfates]
    cases (d.faults.fates slot.sectors).findSome? Fate.refusal? <;> rfl

end SwapDevice

/-! ### Loads -/

namespace Paging

variable {s : System}

theorem wp_loadWindow_ends (w : FileWindow) (pa : PhysAddr) :
    wp (loadWindow w pa) s (fun _ _ => ∃ content, w.load (w.backing (s.file w.file)) = .ok content)
      fun f _ => w.load (w.backing (s.file w.file)) = .error f := by
  have hshortfall := w.shortfall?_read (s.file w.file)
  simp only [loadWindow, wp_bind]
  refine (wp_onFile _ _).2 ?_
  rw [← failure?_eq_none]
  simp only [fillFrame, wp_modifyPager, ← failure?_eq_some, ← hshortfall, Transfer.shortfall?]
  cases (File.read w.offset w.readBytes (s.file w.file)).1.failure with
  | some f => simp only [wp_throw]
  | none =>
    simp only [wp_ite, wp_bind, wp_fail, wp_modifyPager]
    split <;> simp_all

theorem wp_swapIn_ends (hs : s.WellFormed) {slot : SwapSlot} (hslot : slot.index ∈ s.pager.swap.slots.members)
    (pa : PhysAddr) :
    wp (swapIn slot pa) s (fun _ _ => ∃ content, SwapSlot.load (slot.backing s.pager.swap) = .ok content)
      fun f _ => SwapSlot.load (slot.backing s.pager.swap) = .error f := by
  have hfailure := hs.swap.failure_read hslot
  obtain ⟨hsame, -⟩ := SwapDevice.read_spec slot s.pager.swap
  simp only [swapIn, wp_bind]
  refine (wp_onSwapDevice _).2 ?_
  rw [← failure?_eq_none]
  simp only [fillFrame, wp_modifyPager, ← failure?_eq_some, ← hfailure]
  cases (SwapDevice.read slot s.pager.swap).1.failure with
  | some f => simp only [wp_bind, wp_throw]
  | none =>
    have hslot' : slot.index ∈ (SwapDevice.read slot s.pager.swap).2.slots.members := by rwa [hsame.slots]
    obtain ⟨t, hfree, -⟩ := (hsame.wellFormed hs.swap).free hslot'
    simp only [wp_bind, freeSlot, wp_pager, hfree, wp_modifyPager, wp_note]

/-- A frame is filled just if a load of the page ends well. -/
theorem wp_fill_ends (hs : s.WellFormed) {kind : PageKind}
    (hslot : ∀ slot, kind.slot? = some slot → slot.index ∈ s.pager.swap.slots.members) (pa : PhysAddr) :
    wp (fill kind pa) s (fun _ _ => ∃ content, kind.load (s.backing kind) = .ok content)
      fun f _ => kind.load (s.backing kind) = .error f := by
  have hload (w : FileWindow) (kind' : PageKind) : wp (loadWindow w pa >>= fun _ => pure kind') s
      (fun _ _ => ∃ content, w.load (w.backing (s.file w.file)) = .ok content)
      fun f _ => w.load (w.backing (s.file w.file)) = .error f := by
    rw [wp_bind]
    exact wp_loadWindow_ends w pa
  cases kind with
  | pending q =>
    cases q with
    | anon source =>
      cases source with
      | zero => exact ⟨_, rfl⟩
      | file w => exact hload w _
    | file w => exact hload w _
  | anon slot =>
    cases slot with
    | none => rfl
    | some slot =>
      simp only [fill, wp_bind]
      exact wp_swapIn_ends hs (hslot slot rfl) pa
  | file w => exact hload w _

/-- A page comes to lodge in a frame just if it can be mapped there and a load of it ends well. -/
theorem wp_lodge_ends {t : System} {p : PageId} {page : PageEntry} {pa : PhysAddr}
    (hmap : mapPage p.space p.va pa page.writable s = .ok () t) (ht : t.WellFormed) (hpa : pa ∈ t.pager.pool.used)
    (hslot : ∀ slot, page.kind.slot? = some slot → slot.index ∈ t.pager.swap.slots.members) :
    wp (lodge p.space p.va page pa) s (fun _ _ => ∃ content, page.kind.load (t.backing page.kind) = .ok content)
      fun f _ => page.kind.load (t.backing page.kind) = .error f := by
  have hfill := (wp_fill_ends ht hslot pa).and (wp_fill_pager page.kind pa)
  simp only [lodge, wp_orUndo, wp_bind, wp_attempt]
  unfold wp
  rw [hmap]
  refine hfill.mono (fun kind u hu => ?_) fun f u hu => ?_
  · exact hu.1
  · refine (wp_unmapPage_pager p.space p.va _ u).mono (fun _ v hv => ?_) fun _ _ hv => hv.elim
    have hpager : t.pager.SameButBytes v.pager := hv ▸ hu.2
    cases f.errno? with
    | none =>
      exact (wp_releaseFrame_throw hpager ht.pool hpa f _).mono (fun _ _ h => h) fun _ _ h => h.1 ▸ hu.1
    | some e =>
      exact (wp_releaseFrame_throw (s := { v with log := v.log.push _ }) hpager ht.pool hpa f _).mono (fun _ _ h => h)
        fun _ _ h => h.1 ▸ hu.1

end Paging

namespace System

variable {s s₁ s₂ t u : System} {p : PageId} {page : PageEntry} {pa pa₁ pa₂ : PhysAddr} {f : Failure}

/-- What a load that ends well yields is what the page holds. -/
theorem eq_bytesOf_of_load {kind : PageKind} {content : PageContent}
    (hslot : ∀ slot, kind.slot? = some slot → slot.index ∈ s.pager.swap.slots.members)
    (h : kind.load (s.backing kind) = .ok content) : content = s.view.bytesOf kind := by
  have hwindow {w : FileWindow} (h : w.load (w.backing (s.file w.file)) = .ok content) :
      content = w.contentOver (s.view.file w.file).data := by
    unfold FileWindow.load at h
    split at h
    · cases h
    · cases h
    · split at h
      · cases h
        rfl
      · cases h
  cases kind with
  | pending q =>
    cases q with
    | anon source =>
      cases source with
      | zero =>
        cases h
        rfl
      | file w => exact hwindow h
    | file w => exact hwindow h
  | anon slot =>
    cases slot with
    | none => cases h
    | some slot =>
      have hheld : s.view.slots slot = some (s.pager.swap.content slot) := if_pos (hslot slot rfl)
      simp only [PageKind.load, SwapSlot.load] at h
      split at h
      · cases h
      · cases h
        rw [View.bytesOf, hheld, Option.getD_some]
        exact Content.ofBytes_toList _
  | file w => exact hwindow h

/-! ### Claims -/

/-- A claim of the page at `p`, which `page` describes, found the frame at `pa` for it and mapped the page there; `t` is
where it starts to load. -/
structure StartsLoading (s : System) (p : PageId) (page : PageEntry) (pa : PhysAddr) (t : System) : Prop where
  described : s.page? p = some page
  absent : page.frame = none
  mapped : ∃ u, Paging.acquire s = .ok pa u ∧ Paging.mapPage p.space p.va pa page.writable u = .ok () t

/-- The claim ends as what stands behind the page says, with these bytes in the frame that was found. -/
theorem StartsLoading.claimPage (h : s.StartsLoading p page pa t) (hs : s.Steady) :
    wp (Paging.claimPage p.space p.va page) s
      (fun pa' v => pa' = pa ∧ ∃ content, page.kind.load (t.backing page.kind) = .ok content ∧
        v.pager.pool.frame? pa = some content)
      fun f v => page.kind.load (t.backing page.kind) = .error f ∧ ∃ u : System, u.GivesBack pa v := by
  obtain ⟨hpage, hframe, u, hacquire, hmap⟩ := h
  obtain ⟨hu, hupkept⟩ := hs.acquired hacquire
  have hv := hupkept.sound hs.sound
  have hpage' : u.view.pages p = some page :=
    (hupkept.pages_eq fun q hq => Option.some.inj (hpage.symm.trans hq) ▸ hframe).trans hpage
  obtain ⟨hlive, hfits⟩ := hv.page hpage'
  have hentry : u.view.entries p = none :=
    hv.entry_eq_none (by rw [show (u.view.hold pa).pages p = some page from hpage']; rintro q ⟨⟩; exact hframe)
  have hused : (u.view.frames pa).isSome := (hv.isSome_frame_of_held rfl).1
  have hmapped : wp (mapPage p.space p.va pa page.writable) u
      (fun _ t => t.pager = u.pager ∧ t.WellFormed ∧
        t.view = u.view.setEntry p (some ⟨pa, .ofPermission (.userPage page.writable)⟩)) fun _ _ => True :=
    ((wp_mapPage_pager ..).and (wp_mapPage_of_view (p := p) (E := fun _ _ => True) hu hlive hfits.aligned
      (hu.offset_of_frame hused) hentry _ (fun _ t ht hview => ⟨ht, hview⟩) fun _ => trivial)).mono
      (fun _ _ h => h) fun _ _ _ => trivial
  obtain ⟨hpager, ht, hview⟩ := hmapped.of_ok hmap
  have hslot (slot : SwapSlot) (hslot : page.kind.slot? = some slot) : slot.index ∈ t.pager.swap.slots.members := by
    have hsome : (u.view.slots slot).isSome := hv.slots.used.2 ⟨p, by
      rw [View.slotOf, show (u.view.hold pa).pages p = some page from hpage', Option.bind_some, hslot]⟩
    obtain ⟨content, hcontent⟩ := Option.isSome_iff_exists.1 hsome
    rw [hpager]
    exact (SwapDevice.mem_members_of_page? hcontent).1
  rw [claimPage_of_frame hframe, wp_bind]
  unfold wp
  rw [hacquire]
  refine ((lodge_or_giveBack hu hv hpage' hframe).and
    (wp_lodge_ends hmap ht (hpager ▸ FramePool.isSome_frame?.1 hused) hslot)).mono (fun pa' v hlodged => ?_)
    fun f v hfailed => ?_
  · obtain ⟨⟨rfl, hlodges⟩, content, hload⟩ := hlodged
    refine ⟨rfl, content, hload, ?_⟩
    rw [hlodges.bytes, eq_bytesOf_of_load hslot hload, hview]
    rfl
  · exact ⟨hfailed.2, u, hfailed.1.2.1⟩

/-- Two actions that fill frames, at `pa₁` and at `pa₂`, fail in the same way, or leave the same bytes there. -/
inductive EndAlike (pa₁ pa₂ : PhysAddr) :
    EStateM.Result Failure System PhysAddr → EStateM.Result Failure System PhysAddr → Prop
  | failed {f : Failure} {t₁ t₂ : System} : EndAlike pa₁ pa₂ (.error f t₁) (.error f t₂)
  | filled {content : PageContent} {t₁ t₂ : System} (h₁ : t₁.pager.pool.frame? pa₁ = some content)
    (h₂ : t₂.pager.pool.frame? pa₂ = some content) : EndAlike pa₁ pa₂ (.ok pa₁ t₁) (.ok pa₂ t₂)

/-- Actions that end as the same outcome says end alike. -/
theorem endAlike_of_outcome {x₁ x₂ : Paging PhysAddr} (outcome : Except Failure PageContent)
    (h₁ : wp x₁ s₁ (fun pa t => pa = pa₁ ∧ ∃ content, outcome = .ok content ∧ t.pager.pool.frame? pa₁ = some content)
      fun f _ => outcome = .error f)
    (h₂ : wp x₂ s₂ (fun pa t => pa = pa₂ ∧ ∃ content, outcome = .ok content ∧ t.pager.pool.frame? pa₂ = some content)
      fun f _ => outcome = .error f) : EndAlike pa₁ pa₂ (x₁ s₁) (x₂ s₂) := by
  unfold wp at h₁ h₂
  cases outcome with
  | ok content =>
    cases hx₁ : x₁ s₁ with
    | error f t => simp [hx₁] at h₁
    | ok pa t =>
      cases hx₂ : x₂ s₂ with
      | error f t => simp [hx₂] at h₂
      | ok pa' t' =>
        simp only [hx₁, Except.ok.injEq, exists_eq_left'] at h₁
        simp only [hx₂, Except.ok.injEq, exists_eq_left'] at h₂
        obtain ⟨rfl, hbytes₁⟩ := h₁
        obtain ⟨rfl, hbytes₂⟩ := h₂
        exact .filled hbytes₁ hbytes₂
  | error f =>
    cases hx₁ : x₁ s₁ with
    | ok pa t => simp [hx₁] at h₁
    | error f₁ t =>
      cases hx₂ : x₂ s₂ with
      | ok pa t => simp [hx₂] at h₂
      | error f₂ t' =>
        simp only [hx₁, Except.error.injEq] at h₁
        simp only [hx₂, Except.error.injEq] at h₂
        subst h₁ h₂
        exact .failed

/-! ### Copies -/

/-- A copy by `dst` of the page at `p`, which is in the frame at `pa` with `content`, found the frame at `copy` for it; `t`
is where that frame is filled. -/
structure StartsCopying (s : System) (dst : SpaceId) (p : PageId) (page : PageEntry) (pa copy : PhysAddr)
    (content : PageContent) (t : System) : Prop where
  live : dst ∈ s.spaces
  missing : s.page? ⟨dst, p.va⟩ = none
  described : s.page? p = some page
  resides : page.frame = some pa
  bytes : s.pager.pool.frame? pa = some content
  acquired : Paging.acquire s = .ok copy t

/-- Unless the copy cannot be mapped, the frame that was found has the bytes that the page had, even if it was the frame of
that page. -/
theorem StartsCopying.copyFrame {dst : SpaceId} {copy : PhysAddr} {content : PageContent}
    (h : s.StartsCopying dst p page pa copy content t) (hs : s.Steady) :
    wp (Paging.copyFrame dst p.space p.va page.writable pa) s
      (fun pa' v => pa' = copy ∧ ¬ t.view.refuses ⟨dst, p.va⟩ ∧ v.pager.pool.frame? copy = some content)
      fun f _ => t.view.refuses ⟨dst, p.va⟩ ∧ f = MappingError.refusal := by
  obtain ⟨hlive, hmissing, hpage, hframe, hbytes, hacquire⟩ := h
  obtain ⟨ht, hupkept⟩ := hs.acquired hacquire
  have hlive' : t.view.live dst := by
    have hsame : t.view.live = s.view.live := hupkept.same.1
    rw [hsame]
    exact hlive
  unfold wp
  rw [copyFrame_of_content hs.sound dst hpage hframe hbytes]
  refine (wp_bind _ _).2 ?_
  unfold wp
  rw [hacquire]
  refine wp_lodgeCopy (p := ⟨dst, p.va⟩) ht (hupkept.sound hs.sound) hlive' (hs.sound.page hpage).2.aligned
    (hupkept.pages_eq_none hmissing) _ _ _ (fun e u _ hmap _ _ hview => ⟨rfl, hmap, ?_⟩)
    fun u _ hrefuses _ => ⟨hrefuses, rfl⟩
  change u.view.frames copy = _
  rw [hview]
  exact Function.update_self ..

theorem StartsCopying.endAlike {dst₁ dst₂ : SpaceId} {p₁ p₂ : PageId} {page₁ page₂ : PageEntry}
    {pa₁ pa₂ copy₁ copy₂ : PhysAddr} {content : PageContent} {t₁ t₂ : System}
    (h₁ : s₁.StartsCopying dst₁ p₁ page₁ pa₁ copy₁ content t₁) (hs₁ : s₁.Steady)
    (h₂ : s₂.StartsCopying dst₂ p₂ page₂ pa₂ copy₂ content t₂) (hs₂ : s₂.Steady)
    (hrefuses : t₁.view.refuses ⟨dst₁, p₁.va⟩ ↔ t₂.view.refuses ⟨dst₂, p₂.va⟩) :
    EndAlike copy₁ copy₂ (Paging.copyFrame dst₁ p₁.space p₁.va page₁.writable pa₁ s₁)
      (Paging.copyFrame dst₂ p₂.space p₂.va page₂.writable pa₂ s₂) := by
  by_cases hrefused : t₁.view.refuses ⟨dst₁, p₁.va⟩
  · exact endAlike_of_outcome (.error MappingError.refusal)
      ((h₁.copyFrame hs₁).mono (fun _ _ h => absurd hrefused h.2.1) fun _ _ h => h.2 ▸ rfl)
      ((h₂.copyFrame hs₂).mono (fun _ _ h => absurd (hrefuses.1 hrefused) h.2.1) fun _ _ h => h.2 ▸ rfl)
  · exact endAlike_of_outcome (.ok content)
      ((h₁.copyFrame hs₁).mono (fun _ _ h => ⟨h.1, content, rfl, h.2.2⟩) fun _ _ h => absurd h.1 hrefused)
      ((h₂.copyFrame hs₂).mono (fun _ _ h => ⟨h.1, content, rfl, h.2.2⟩) fun _ _ h =>
        absurd (hrefuses.2 h.1) hrefused)

/-! ### Frames that are free -/

/-- A frame that was free is all zeros when it has been acquired. -/
theorem Steady.zero_of_acquire (hs : s.Steady) (hfree : pa ∉ s.pager.pool.used)
    (h : Paging.acquire s = .ok pa u) : u.pager.pool.frame? pa = some (Content.zero pageSize) := by
  obtain ⟨pool, halloc, rfl⟩ | ⟨-, o, v, w, l, hseeking, -, -, hevicts, rfl⟩ := hs.acquire.of_ok h
  · change pool.frame? pa = _
    rw [(hs.wellFormed.pool.frame?_of_alloc halloc).2.2]
    exact Function.update_self ..
  · -- The frame of a page that had to make way was in use.
    obtain ⟨hu, hupkept⟩ := hs.acquired h
    have hused : pa ∈ w.pager.pool.used :=
      FramePool.isSome_frame?.1 ((hupkept.sound hs.sound).isSome_frame_of_held rfl).1
    obtain ⟨_, _, hpager⟩ := hseeking.loses.pager
    obtain ⟨_, _, hpager'⟩ := hevicts.pager
    rw [hpager', hpager] at hused
    exact absurd hused hfree

/-- A page shows what stands behind it and nothing else. Two claims that start to load pages of one kind over the same
bytes, and get the same answers from the devices, fail in the same way or leave the same bytes in their frames, whatever
these held before and whatever else there is; so do two copies of pages with the same bytes. A frame that was given up
while it was filled is free, and whoever acquires it while it is free finds zeros in it. -/
theorem Steady.filled_from_backing_alone (hs₁ : s₁.Steady) (hs₂ : s₂.Steady) :
    (∀ id₁ id₂ va₁ va₂ page₁ page₂ pa₁ pa₂ t₁ t₂, s₁.StartsLoading ⟨id₁, VirtAddr.pageDown va₁⟩ page₁ pa₁ t₁ →
      s₂.StartsLoading ⟨id₂, VirtAddr.pageDown va₂⟩ page₂ pa₂ t₂ → page₁.kind = page₂.kind →
      t₁.backing page₁.kind = t₂.backing page₂.kind →
        EndAlike pa₁ pa₂ (Paging.claim id₁ va₁ s₁) (Paging.claim id₂ va₂ s₂)) ∧
    (∀ dst₁ dst₂ p₁ p₂ page₁ page₂ pa₁ pa₂ copy₁ copy₂ content t₁ t₂,
      s₁.StartsCopying dst₁ p₁ page₁ pa₁ copy₁ content t₁ → s₂.StartsCopying dst₂ p₂ page₂ pa₂ copy₂ content t₂ →
      (t₁.view.refuses ⟨dst₁, p₁.va⟩ ↔ t₂.view.refuses ⟨dst₂, p₂.va⟩) →
        EndAlike copy₁ copy₂ (Paging.copyFrame dst₁ p₁.space p₁.va page₁.writable pa₁ s₁)
          (Paging.copyFrame dst₂ p₂.space p₂.va page₂.writable pa₂ s₂)) ∧
    ∀ id va page pa t f u, s₁.StartsLoading ⟨id, VirtAddr.pageDown va⟩ page pa t → Paging.claim id va s₁ = .error f u →
      u.Steady ∧ pa ∉ u.pager.pool.used ∧
        ∀ v w : System, v.Steady → pa ∉ v.pager.pool.used → Paging.acquire v = .ok pa w →
          w.pager.pool.frame? pa = some (Content.zero pageSize) := by
  refine ⟨fun id₁ id₂ va₁ va₂ page₁ page₂ pa₁ pa₂ t₁ t₂ h₁ h₂ hkind hsame => ?_,
    fun dst₁ dst₂ p₁ p₂ page₁ page₂ pa₁ pa₂ copy₁ copy₂ content t₁ t₂ h₁ h₂ hrefuses => h₁.endAlike hs₁ h₂ hs₂ hrefuses,
    fun id va page pa t f u h hfailed => ?_⟩
  · rw [claim_of_page h₁.described, claim_of_page h₂.described]
    have hload : page₁.kind.load (t₁.backing page₁.kind) = page₂.kind.load (t₂.backing page₂.kind) := by
      rw [hsame, hkind]
    have hclaim₁ := h₁.claimPage hs₁
    rw [hload] at hclaim₁
    exact endAlike_of_outcome _ (hclaim₁.mono (fun _ _ h => h) fun _ _ h => h.1)
      ((h₂.claimPage hs₂).mono (fun _ _ h => h) fun _ _ h => h.1)
  · rw [claim_of_page h.described] at hfailed
    obtain ⟨-, v, hback⟩ := (h.claimPage hs₁).of_error hfailed
    have hnodup := v.pager.pool.nodup_used
    rw [hback.used, Multiset.nodup_cons] at hnodup
    exact ⟨((hs₁.claimPage h.described h.absent).of_error hfailed).1, hnodup.1, fun _ _ hv hfree hacquire =>
      hv.zero_of_acquire hfree hacquire⟩

theorem exists_startsLoading (P : System → Bool) (hpage : s.page? p = some page) (hframe : page.frame = none)
    (h : (match (Paging.acquire >>= fun pa => Paging.mapPage p.space p.va pa page.writable >>= fun _ => pure pa) s with
      | .ok pa' t => decide (pa' = pa) && P t
      | .error _ _ => false) = true) : ∃ t, s.StartsLoading p page pa t ∧ P t = true := by
  simp only [bind, EStateM.bind] at h
  cases hacquire : Paging.acquire s with
  | error f u => simp [hacquire] at h
  | ok pa' u =>
    cases hmap : Paging.mapPage p.space p.va pa' page.writable u with
    | error f t => simp [hacquire, hmap] at h
    | ok _ t =>
      simp only [hacquire, hmap, pure, EStateM.pure, Bool.and_eq_true, decide_eq_true_eq] at h
      obtain ⟨rfl, ht⟩ := h
      exact ⟨t, ⟨hpage, hframe, u, hacquire, hmap⟩, ht⟩

/-- A page is to be loaded from a file of three bytes. -/
def besideZeros : System :=
  (small { data := [1, 2, 3] }).after [.create, .addPage 0 .anon ⟨0x2000⟩ true (.file (.new 0 0 3))]

/-- The same page is to be loaded from a longer file, into the frame of a page that was stored to. -/
def besideOthers : System := (small { data := [1, 2, 3, 4] }).after
  [.create, .addPage 0 .anon ⟨0x1000⟩ true .zero, .store 0 ⟨0x1003⟩ 0 7,
    .addPage 0 .anon ⟨0x2000⟩ true (.file (.new 0 0 3))]

/-- A page that was stored to is in the only frame, and there is a space to copy it to. -/
def alone : System :=
  (small {}).after [.create, .create, .addPage 0 .anon ⟨0x1000⟩ true .zero, .store 0 ⟨0x1003⟩ 0 7]

/-- The page is as before, but another one is on the disk. -/
def notAlone : System := (small {}).after
  [.create, .create, .addPage 1 .anon ⟨0x3000⟩ true .zero, .store 1 ⟨0x3003⟩ 0 9, .addPage 0 .anon ⟨0x1000⟩ true .zero,
    .store 0 ⟨0x1003⟩ 0 7]

/-- What was in a frame does not show in a page that is loaded into it, nor in a copy of the page that was in it, nor when
the page could not be loaded. -/
theorem exists_filled_alike :
    (∃ (s₁ s₂ t₁ t₂ : System) (page : PageEntry) (pa : PhysAddr), s₁.Reachable ∧ s₂.Reachable ∧
      s₁.StartsLoading ⟨0, ⟨0x2000⟩⟩ page pa t₁ ∧ s₂.StartsLoading ⟨0, ⟨0x2000⟩⟩ page pa t₂ ∧
      (t₁.pager.pool.content? pa).map (Content.byteAt · 3) = some 0 ∧
      (t₂.pager.pool.content? pa).map (Content.byteAt · 3) = some 7 ∧
      EndAlike pa pa (Paging.claim 0 ⟨0x2001⟩ s₁) (Paging.claim 0 ⟨0x2001⟩ s₂)) ∧
    (∃ (s₁ s₂ t₁ t₂ : System) (page : PageEntry) (pa : PhysAddr) (content : PageContent), s₁.Reachable ∧ s₂.Reachable ∧
      s₁.StartsCopying 1 ⟨0, ⟨0x1000⟩⟩ page pa pa content t₁ ∧ s₂.StartsCopying 1 ⟨0, ⟨0x1000⟩⟩ page pa pa content t₂ ∧
      EndAlike pa pa (Paging.copyFrame 1 0 ⟨0x1000⟩ page.writable pa s₁)
        (Paging.copyFrame 1 0 ⟨0x1000⟩ page.writable pa s₂)) ∧
    ∃ (s t u v : System) (page : PageEntry) (pa : PhysAddr), s.Reachable ∧ s.StartsLoading ⟨0, ⟨0x1000⟩⟩ page pa t ∧
      Paging.claim 0 ⟨0x1003⟩ s = .error (.error .ioError) u ∧ Paging.acquire u = .ok pa v ∧
      v.pager.pool.frame? pa = some (Content.zero pageSize) := by
  refine ⟨?_, ?_, ?_⟩
  · have hs₁ : besideZeros.Reachable := (Reachable.initial (initial_small _)).after (by decide +kernel)
    have hs₂ : besideOthers.Reachable := (Reachable.initial (initial_small _)).after (by decide +kernel)
    let page : PageEntry := .pending true (.anon (.file (.new 0 0 3)))
    let shows (byte : UInt8) (t : System) : Bool :=
      decide ((t.pager.pool.content? ⟨0x1000000⟩).map (Content.byteAt · 3) = some byte) &&
        decide (t.backing page.kind = ⟨[1, 2, 3], [.served]⟩)
    obtain ⟨t₁, h₁, hshows₁⟩ : ∃ t, besideZeros.StartsLoading ⟨0, ⟨0x2000⟩⟩ page ⟨0x1000000⟩ t ∧ shows 0 t = true :=
      exists_startsLoading _ (by decide +kernel) rfl (by decide +kernel)
    obtain ⟨t₂, h₂, hshows₂⟩ : ∃ t, besideOthers.StartsLoading ⟨0, ⟨0x2000⟩⟩ page ⟨0x1000000⟩ t ∧ shows 7 t = true :=
      exists_startsLoading _ (by decide +kernel) rfl (by decide +kernel)
    simp only [shows, Bool.and_eq_true, decide_eq_true_eq] at hshows₁ hshows₂
    exact ⟨besideZeros, besideOthers, t₁, t₂, page, ⟨0x1000000⟩, hs₁, hs₂, h₁, h₂, hshows₁.1, hshows₂.1,
      (Steady.filled_from_backing_alone hs₁.steady hs₂.steady).1 0 0 ⟨0x2001⟩ ⟨0x2001⟩ page page _ _ t₁ t₂ h₁ h₂ rfl
        (hshows₁.2.trans hshows₂.2.symm)⟩
  · have hs₁ : alone.Reachable := (Reachable.initial (initial_small _)).after (by decide +kernel)
    have hs₂ : notAlone.Reachable := (Reachable.initial (initial_small _)).after (by decide +kernel)
    let page : PageEntry := ⟨true, .anon none, some ⟨0x1000000⟩⟩
    have hstarts {s : System} (hs : s.Reachable) (hpage : s.page? ⟨0, ⟨0x1000⟩⟩ = some page)
        (hmissing : s.page? ⟨1, ⟨0x1000⟩⟩ = none) (hlive : 1 ∈ s.spaces)
        (hmaps : ¬ (⟨0x1000⟩ : VirtAddr) ∈ (s.space 1).table.refuseMap)
        (hacquire : ∃ t, Paging.acquire s = .ok ⟨0x1000000⟩ t) :
        ∃ content t, s.pager.pool.content? ⟨0x1000000⟩ = some content ∧ ¬ t.view.refuses ⟨1, ⟨0x1000⟩⟩ ∧
          s.StartsCopying 1 ⟨0, ⟨0x1000⟩⟩ page ⟨0x1000000⟩ ⟨0x1000000⟩ content t := by
      obtain ⟨t, hacquire⟩ := hacquire
      obtain ⟨content, hcontent⟩ := Option.isSome_iff_exists.1 (hs.sound.isSome_frame_of_page hpage rfl)
      obtain ⟨-, -, -, -, hrefuses⟩ := (hs.steady.acquired hacquire).2.same
      refine ⟨content, t, FramePool.content?_of_frame? hcontent, fun hrefused => hmaps ?_,
        hlive, hmissing, hpage, rfl, hcontent, hacquire⟩
      have hrefused' : (t.view.hold ⟨0x1000000⟩).refuses ⟨1, ⟨0x1000⟩⟩ := hrefused
      rw [hrefuses] at hrefused'
      exact hrefused'
    obtain ⟨content, t₁, hcontent, hmaps₁, h₁⟩ := hstarts hs₁ (by decide +kernel) (by decide +kernel) (by decide +kernel)
      (by decide +kernel) (exists_of_result (by decide +kernel))
    obtain ⟨content', t₂, hcontent', hmaps₂, h₂⟩ := hstarts hs₂ (by decide +kernel) (by decide +kernel)
      (by decide +kernel) (by decide +kernel) (exists_of_result (by decide +kernel))
    have hsame : ((alone.pager.pool.content? ⟨0x1000000⟩).map Vector.toList ==
        (notAlone.pager.pool.content? ⟨0x1000000⟩).map Vector.toList) = true := by decide +kernel
    rw [hcontent, hcontent', beq_iff_eq, Option.map_some, Option.map_some, Option.some.injEq, Vector.toList_inj] at hsame
    subst hsame
    exact ⟨alone, notAlone, t₁, t₂, page, ⟨0x1000000⟩, content, hs₁, hs₂, h₁, h₂,
      (Steady.filled_from_backing_alone hs₁.steady hs₂.steady).2.1 1 1 ⟨0, ⟨0x1000⟩⟩ ⟨0, ⟨0x1000⟩⟩ page page _ _ _ _
        content t₁ t₂ h₁ h₂ (iff_of_false hmaps₁ hmaps₂)⟩
  · have hs : unreadable.Reachable := reachable_unreadable
    obtain ⟨t, h, -⟩ : ∃ t, unreadable.StartsLoading ⟨0, ⟨0x1000⟩⟩ ⟨true, .anon (some ⟨0⟩), none⟩ ⟨0x1000000⟩ t ∧
        (fun _ => true) t = true := exists_startsLoading _ (by decide +kernel) rfl (by decide +kernel)
    obtain ⟨u, hfailed⟩ : ∃ u, Paging.claim 0 ⟨0x1003⟩ unreadable = .error (.error .ioError) u :=
      exists_of_errno (by decide +kernel)
    obtain ⟨hu, hfree, hzero⟩ := (Steady.filled_from_backing_alone hs.steady hs.steady).2.2 0 ⟨0x1003⟩ _ _ t _ u h hfailed
    have hagain : ∃ v, Paging.acquire (outcomeOf (Paging.claim 0 ⟨0x1003⟩) unreadable) = .ok ⟨0x1000000⟩ v :=
      exists_of_result (by decide +kernel)
    rw [outcomeOf, hfailed] at hagain
    obtain ⟨v, hacquire⟩ := hagain
    exact ⟨unreadable, t, u, v, _, ⟨0x1000000⟩, hs, h, hfailed, hacquire, hzero u v hu hfree hacquire⟩

end System

end DemandPaging
