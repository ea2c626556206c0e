import DemandPaging.Proofs.Seeking

/-!
Fixed faults. A disk or a file without a script refuses the same requests over and over, and so a system tells by itself
which of its pages cannot be persisted.
-/

namespace DemandPaging

open Paging

section

variable {α ε ι σ : Type} {I : σ → Prop} {E : ε → Prop} {bad : Prop}

/-- An action that fails in `E` where `bad` holds, and succeeds in `I` where it does not. -/
def Decided (I : σ → Prop) (E : ε → Prop) (bad : Prop) : EStateM.Result ε σ α → Prop
  | .ok _ s => ¬ bad ∧ I s
  | .error e _ => bad ∧ E e

/-- A loop fails if one of its rounds does, where every round leaves behind what the others go by. -/
theorem decided_forM {g : ι → EStateM ε σ PUnit} {bad : ι → Prop} {is : List ι}
    (h : ∀ i ∈ is, ∀ s, I s → Decided I E (bad i) (g i s)) {s : σ} (hs : I s) :
    Decided I E (∃ i ∈ is, bad i) (is.forM g s) := by
  induction is generalizing s with
  | nil => exact ⟨by simp, hs⟩
  | cons i is ih =>
    have hfirst := h i List.mem_cons_self s hs
    change Decided I E _ (EStateM.bind (g i) (fun _ => is.forM g) s)
    unfold EStateM.bind
    cases hresult : g i s with
    | error e t =>
      rw [hresult] at hfirst
      exact ⟨⟨i, List.mem_cons_self, hfirst.1⟩, hfirst.2⟩
    | ok _ t =>
      rw [hresult] at hfirst
      have hrest := ih (fun j hj => h j (List.mem_cons_of_mem _ hj)) hfirst.2
      simpa only [List.exists_mem_cons_iff, hfirst.1, false_or] using hrest

end

/-! ### Devices -/

/-- The disk refuses to take a page into the slot. -/
def Faults.RefuseSlot (f : Faults) (slot : SwapSlot) : Prop := ∃ i ∈ List.range sectorsPerPage, slot.sector + i ∈ f.write

/-- A piece cannot be put in place: the block is refused, also if it is to be read before, or it is beyond what a file
can hold. -/
def Faults.RefusePiece (f : Faults) (p : Piece) : Prop :=
  p.length ≠ pageSize ∧ p.page ∈ f.read ∨ p.page ∈ f.write ∨ f.tooLong (p.start + p.length)

instance (f : Faults) (slot : SwapSlot) : Decidable (f.RefuseSlot slot) :=
  inferInstanceAs (Decidable (∃ i ∈ List.range sectorsPerPage, slot.sector + i ∈ f.write))

instance (f : Faults) (p : Piece) : Decidable (f.RefusePiece p) :=
  inferInstanceAs (Decidable (p.length ≠ pageSize ∧ p.page ∈ f.read ∨ p.page ∈ f.write ∨
    f.tooLong (p.start + p.length)))

theorem Disk.write_decided {d : Disk} {f : Faults} (hf : f.script = []) {count n : Nat} (hn : n < count)
    (content : SectorContent) (hd : d.faults = f ∧ d.sectorCount = count) :
    Decided (fun d => d.faults = f ∧ d.sectorCount = count) (fun _ => True) (n ∈ f.write) (Disk.write n content d) := by
  obtain ⟨rfl, rfl⟩ := hd
  have hin : ¬ d.sectorCount ≤ n := Nat.not_le.2 hn
  by_cases hbad : n ∈ d.faults.write
  · simp [Disk.write, get_apply, bind, EStateM.bind, set_apply, throw_apply, hin, Faults.onWrite, hf, hbad, Decided]
  · have hsize (faults : Faults) (traffic : Traffic) :
        (⟨d.sectors.setIfInBounds n content, faults, traffic⟩ : Disk).sectorCount = d.sectorCount :=
      Array.size_setIfInBounds
    simp [Disk.write, get_apply, bind, EStateM.bind, set_apply, hin, Faults.onWrite, hf, hbad, Decided, hsize]

theorem SwapDevice.write_decided {t : SwapDevice} (ht : t.WellFormed) {d : Disk} (hd : t.disk = some d)
    (hscript : d.faults.script = []) {slot : SwapSlot} (hslot : slot.index < t.capacity) (content : PageContent) :
    Decided (fun _ => True) (fun _ => True) (d.faults.RefuseSlot slot) (SwapDevice.write slot content t) := by
  have hsize : t.capacity * sectorsPerPage ≤ d.sectorCount := by simpa [hd] using ht.size
  have hloop : Decided (fun d' => d'.faults = d.faults ∧ d'.sectorCount = d.sectorCount) (fun _ => True)
      (d.faults.RefuseSlot slot)
      ((List.range sectorsPerPage).forM (fun i => Disk.write (slot.sector + i) (sectorOf content i)) d) := by
    refine decided_forM (fun i hi d' hd' => Disk.write_decided hscript ?_ _ hd') ⟨rfl, rfl⟩
    have hlt : slot.index * sectorsPerPage + sectorsPerPage ≤ t.capacity * sectorsPerPage := by
      rw [← Nat.succ_mul]
      exact Nat.mul_le_mul_right _ hslot
    have hi' := List.mem_range.1 hi
    unfold SwapSlot.sector
    omega
  unfold SwapDevice.write SwapDevice.onDisk
  rw [hd]
  dsimp only
  generalize (List.range sectorsPerPage).forM (fun i => Disk.write (slot.sector + i) (sectorOf content i)) d = result
    at hloop ⊢
  cases result with
  | ok _ d' => exact ⟨hloop.1, trivial⟩
  | error e d' => exact ⟨hloop.1, trivial⟩

namespace File

variable {f : File} {faults : Faults}

theorem oldBlock_decided (hf : faults.script = []) (hfaults : f.faults = faults) (p : Piece) :
    Decided (fun f => f.faults = faults) (fun e => ∃ errno, e = Failure.error errno)
      (p.length ≠ pageSize ∧ p.page ∈ faults.read) (oldBlock p f) := by
  subst hfaults
  unfold oldBlock
  by_cases hfull : p.length = pageSize
  · rw [if_pos hfull]
    exact ⟨by simp [hfull], rfl⟩
  · rw [if_neg hfull]
    by_cases hbad : p.page ∈ f.faults.read
    · simp [request, readBlock, get_apply, bind, EStateM.bind, set_apply, throw_apply, Faults.onRead, hf, hbad, hfull,
        Decided]
    · by_cases heof : p.page ∈ f.faults.eof <;>
        simp [request, readBlock, get_apply, bind, EStateM.bind, set_apply, pure_apply, Faults.onRead, hf, hbad, heof,
          hfull, Decided]

theorem writePiece_decided (hf : faults.script = []) (position : Nat) (bs : Bytes) {p : Piece}
    (hlimit : p.start + p.length < Word.limit) (hfaults : f.faults = faults) :
    Decided (fun f => f.faults = faults) (fun e => ∃ errno, e = Failure.error errno) (faults.RefusePiece p)
      (writePiece position bs p f) := by
  have hold := oldBlock_decided hf hfaults p
  rw [writePiece_eq hlimit]
  simp only [bind, EStateM.bind]
  cases hread : oldBlock p f with
  | error e f' =>
    rw [hread] at hold
    exact ⟨.inl hold.1, hold.2⟩
  | ok old f' =>
    rw [hread] at hold
    obtain ⟨hserved, hfaults'⟩ := hold
    dsimp only
    generalize Content.overlay (old.getD (Content.zero pageSize)) p.offset (p.part position bs) = content
    unfold Faults.RefusePiece
    by_cases hbad : p.page ∈ faults.write
    · simp [request, writeBlock, get_apply, bind, EStateM.bind, set_apply, throw_apply, Faults.onWrite, hfaults', hf,
        hbad, Decided]
    · by_cases hmax : faults.tooLong (p.start + p.length)
      · simp [request, writeBlock, get_apply, bind, EStateM.bind, set_apply, throw_apply, Faults.onWrite, hfaults', hf,
          hbad, hmax, Decided]
      · simp [request, writeBlock, get_apply, bind, EStateM.bind, set_apply, Faults.onWrite, hfaults', hf, hbad, hmax,
          Decided, hserved]

theorem write_decided (hscript : f.faults.script = []) {position : Nat} {bs : Bytes}
    (hlimit : position + bs.length < Word.limit) :
    Decided (fun _ => True) (fun e => ∃ errno, e = Failure.error errno)
      (∃ p ∈ Piece.run position bs.length, f.faults.RefusePiece p) (write position bs f) := by
  have hloop := decided_forM (E := fun e => ∃ errno, e = Failure.error errno)
    (fun p hp f' => writePiece_decided hscript position bs
      (Nat.lt_of_le_of_lt (Piece.of_mem_run hp).2.1 hlimit) (f := f')) rfl
  unfold write
  simp only [bind, EStateM.bind]
  generalize (Piece.run position bs.length).forM (writePiece position bs) f = result at hloop ⊢
  cases result with
  | ok _ f' => exact ⟨hloop.1, trivial⟩
  | error e f' => exact hloop

end File

namespace System

variable {s t v : System} {tried : List PhysAddr}

/-- No device has a script: what a request comes to depends on its sector or its block. -/
structure Constant (s : System) : Prop where
  disk : ∀ d, s.pager.swap.disk = some d → d.faults.script = []
  files : ∀ f, (s.file f).faults.script = []

/-- The device behind a page of kind `kind` does not take its bytes. -/
def Refuses (s : System) (dirty : Bool) : PageKind → Prop
  | .pending _ => True
  | .anon _ => ∃ f ∈ s.pager.swap.disk.map Disk.faults, ∃ slot ∈ s.pager.swap.alloc?.map Prod.fst, f.RefuseSlot slot
  | .file w => dirty = true ∧ ∃ p ∈ Piece.run w.offset w.readBytes, (s.file w.file).faults.RefusePiece p

/-- The page in the frame at `pa` cannot be persisted. -/
def CannotPersist (s : System) (pa : PhysAddr) : Prop :=
  ∃ o ∈ s.pager.resident.get? pa, ∃ page ∈ s.page? o.id, s.Refuses ((s.space o.space).table.isDirty o.va) page.kind

instance decidableRefuses (s : System) (dirty : Bool) : (kind : PageKind) → Decidable (s.Refuses dirty kind)
  | .pending _ => .isTrue trivial
  | .anon _ => inferInstanceAs (Decidable (∃ f ∈ s.pager.swap.disk.map Disk.faults,
      ∃ slot ∈ s.pager.swap.alloc?.map Prod.fst, f.RefuseSlot slot))
  | .file w => inferInstanceAs (Decidable (dirty = true ∧
      ∃ p ∈ Piece.run w.offset w.readBytes, (s.file w.file).faults.RefusePiece p))

instance (s : System) (pa : PhysAddr) : Decidable (s.CannotPersist pa) :=
  inferInstanceAs (Decidable (∃ o ∈ s.pager.resident.get? pa, ∃ page ∈ s.page? o.id,
    s.Refuses ((s.space o.space).table.isDirty o.va) page.kind))

/-- As the devices answer in `s`, they answer in `t`. -/
structure SameAnswers (s t : System) : Prop where
  disk : t.pager.swap.disk.map Disk.faults = s.pager.swap.disk.map Disk.faults
  slots : t.pager.swap.slots = s.pager.swap.slots
  files : ∀ f, (t.file f).faults = (s.file f).faults

namespace SameAnswers

variable (h : s.SameAnswers t)

include h

theorem refuses_iff (dirty : Bool) (kind : PageKind) : t.Refuses dirty kind ↔ s.Refuses dirty kind := by
  have hslot : t.pager.swap.alloc?.map Prod.fst = s.pager.swap.alloc?.map Prod.fst := by
    simp only [SwapDevice.alloc?, h.slots, Option.map_map]
    rfl
  cases kind with
  | pending q => exact Iff.rfl
  | anon slot => simp only [Refuses, h.disk, hslot]
  | file w => simp only [Refuses, h.files]

theorem constant (hs : s.Constant) : t.Constant where
  disk d hd := by
    have hdisk := h.disk
    rw [hd] at hdisk
    obtain ⟨d', hd', hfaults⟩ := Option.map_eq_some_iff.1 hdisk.symm
    exact hfaults ▸ hs.disk d' hd'
  files f := (h.files f).symm ▸ hs.files f

end SameAnswers

/-- A search does to the devices only what requests do. -/
theorem Search.served (hv : v.Orderly) (h : v.Search tried s) : s.Orderly ∧ v.Served s := by
  induction h with
  | start => exact ⟨hv, .refl v⟩
  | @pass _ s t pa o _ _ hused ih =>
    obtain ⟨ht, hst⟩ := (keeps_testAndClearAccessed o s ih.1).of_ok hused
    obtain ⟨hrotated, htr⟩ := keeps_rotate t ht
    exact ⟨hrotated, ih.2.trans (hst.trans htr)⟩
  | @fail _ s t u w pa o e _ _ hunused htaken hfailed ih =>
    obtain ⟨ht, hst⟩ := (keeps_testAndClearAccessed o s ih.1).of_ok hunused
    obtain ⟨hu, htu⟩ := (keeps_unregister pa t ht).of_ok htaken
    obtain ⟨hw, huw⟩ := (lenient_keeps.persisting.persist pa (o := o) trivial u hu).of_ok hfailed
    obtain ⟨hback, hwb⟩ := keeps_register pa o w hw
    exact ⟨hback, ih.2.trans (hst.trans (htu.trans (huw.trans hwb)))⟩

theorem faults_eq_of_leaves {f f' : Faults} {used : List Fate} (hf : f.script = []) (h : f.Leaves used f') : f' = f := by
  unfold Faults.Leaves at h
  have hscript : used ++ f'.script = [] := (congrArg Faults.script h).symm.trans hf
  rw [hscript] at h
  rw [h, ← (List.append_eq_nil_iff.1 hscript).2]

theorem Constant.sameAnswers (hs : s.Constant) (hserved : s.Served t)
    (hslots : t.pager.swap.slots = s.pager.swap.slots) : s.SameAnswers t where
  disk := by
    have hdisk := hserved.swap
    have hscript := hs.disk
    unfold SwapDevice.Served at hdisk
    generalize s.pager.swap.disk = d at hdisk hscript
    generalize t.pager.swap.disk = d' at hdisk
    cases hdisk with
    | none => rfl
    | some h =>
      obtain ⟨used, hleaves⟩ := h
      exact congrArg some (faults_eq_of_leaves (hscript _ rfl) hleaves)
  slots := hslots
  files f := by
    obtain ⟨used, hleaves⟩ := (hserved.files f).faults
    exact faults_eq_of_leaves (hs.files f) hleaves

end System

open DemandPaging.System

namespace Paging

variable {s : System} (hs : s.Constant)

include hs

theorem wp_swapOut_decided (hswap : s.pager.swap.WellFormed) (hroom : s.pager.swap.alloc? ≠ none) (pa : PhysAddr)
    (dirty : Bool) (kept : Option SwapSlot) :
    wp (swapOut pa) s (fun _ _ => ¬ s.Refuses dirty (.anon kept))
      fun f _ => s.Refuses dirty (.anon kept) ∧ ∃ e, f = .error e := by
  obtain ⟨⟨slot, taken⟩, halloc⟩ := Option.ne_none_iff_exists'.1 hroom
  obtain ⟨htaken, hdisk, hcapacity, -, hmembers, hback⟩ := hswap.of_alloc? halloc
  have hslot : slot.index < taken.capacity :=
    IndexPool.lt_of_mem_members (hmembers ▸ Finset.mem_insert_self slot.index s.pager.swap.slots.members)
  obtain ⟨d, hd⟩ : ∃ d, taken.disk = some d := by
    refine Option.ne_none_iff_exists'.1 fun hnone => ?_
    rw [htaken.capacity_eq_zero hnone] at hslot
    exact Nat.not_lt_zero _ hslot
  have hrefuses : s.Refuses dirty (.anon kept) ↔ d.faults.RefuseSlot slot := by
    simp [Refuses, halloc, hdisk.symm.trans hd]
  simp only [swapOut, takeSlot, wp_bind, wp_pager, halloc, wp_modifyPager, wp_pure, wp_frame, wp_attempt,
    wp_onSwapDevice, hrefuses]
  generalize (s.pager.pool.content? pa).getD (Content.zero pageSize) = content
  have hwrite := SwapDevice.write_decided htaken hd (hs.disk d (hdisk.symm.trans hd)) hslot content
  have hspec := SwapDevice.write_spec slot content taken
  cases hresult : SwapDevice.write slot content taken with
  | ok _ swap =>
    rw [hresult] at hwrite
    exact hwrite.1
  | error e swap =>
    rw [hresult] at hwrite
    simp only [hresult] at hspec
    rw [← hspec.slots] at hback
    simp only [wp_bind, freeSlot, wp_pager, SwapDevice.free, hback, wp_modifyPager, wp_throw]
    exact ⟨hwrite.1, e, rfl⟩

theorem wp_writeBack_decided (w : FileWindow) (hlimit : w.offset + w.readBytes < Word.limit) (pa : PhysAddr) :
    wp (writeBack w pa) s (fun _ _ => ¬ s.Refuses true (.file w))
      fun f _ => s.Refuses true (.file w) ∧ ∃ e, f = .error e := by
  unfold writeBack
  split
  · rintro ⟨-, p, hp, -⟩
    have hinside := Piece.of_mem_run hp
    omega
  · rw [wp_bind, wp_frame, wp_bind, wp_onFile]
    generalize (s.pager.pool.content? pa).getD (Content.zero pageSize) = content
    have hlength : (Content.slice content 0 w.readBytes).length = w.readBytes := w.length_bytesOf content
    have hwords : w.offset + (Content.slice content 0 w.readBytes).length < Word.limit := by rwa [hlength]
    have hwrite := File.write_decided (hs.files w.file) hwords
    have hspec := File.write_spec hwords (s.file w.file)
    cases hresult : File.write w.offset (Content.slice content 0 w.readBytes) (s.file w.file) with
    | error e file =>
      rw [hresult, hlength] at hwrite
      exact ⟨⟨rfl, hwrite.1⟩, hwrite.2⟩
    | ok n file =>
      rw [hresult, hlength] at hwrite
      simp only [hresult, hlength] at hspec
      simp only [hspec, ne_eq, not_true_eq_false, ↓reduceIte, wp_note]
      exact fun h => hwrite.1 h.2

/-- Whether the content of a page can be persisted, the device behind it decides. -/
theorem wp_persistContent_decided (hswap : s.pager.swap.WellFormed)
    (hroom : s.pager.swap.alloc? ≠ none) {kind : PageKind}
    (hwindow : ∀ w, kind = .file w → w.offset + w.readBytes < Word.limit) (pa : PhysAddr) (dirty : Bool) :
    wp (persistContent kind pa dirty) s (fun _ _ => ¬ s.Refuses dirty kind)
      fun f _ => s.Refuses dirty kind ∧ ∃ e, f = .error e := by
  cases kind with
  | pending q => exact ⟨trivial, _, rfl⟩
  | anon slot =>
    simp only [persistContent, wp_bind, wp_pure]
    exact wp_swapOut_decided hs hswap hroom pa dirty slot
  | file w =>
    unfold persistContent
    cases dirty with
    | false => exact fun h => Bool.noConfusion h.1
    | true =>
      simp only [if_true, wp_bind, wp_pure]
      exact wp_writeBack_decided hs w (hwindow w rfl) pa

end Paging

namespace System

variable {s t : System}

theorem LosesNothing.isDirty_eq {P : PhysAddr → Prop} (h : s.LosesNothing P t) (o : Occupant) :
    (t.space o.space).table.isDirty o.va = (s.space o.space).table.isDirty o.va := by
  change (t.view.entries o.id).any _ = (s.view.entries o.id).any _
  obtain heq | heq := h.entries o.id
  · rw [heq]
  · rw [heq, Option.any_map]
    rfl

/-- Where devices have no scripts and there is a free slot, it is always the same pages that cannot be persisted. -/
theorem Steady.failsAt_cannotPersist (hs : s.Steady) (hconst : s.Constant) (hroom : s.pager.swap.alloc? ≠ none) :
    s.FailsAt s.CannotPersist := by
  rintro pa o r u ⟨tried, t, q, hsearch, hfront, -, -, hresult⟩
  have ht := Seeking.of_search hs hsearch
  have hsame := hconst.sameAnswers (hsearch.served hs.orderly).2 ht.loses.slots
  have ho : t.view.resident pa = some o := Clock.get?_of_front? hfront
  obtain ⟨page, hpage, hframe, -⟩ := ht.steady.sound.resident.1 ho
  obtain ⟨e, hentry, -⟩ := ht.steady.sound.entry_of_frame hpage hframe
  have hcannot : s.CannotPersist pa ↔ s.Refuses e.flags.dirty page.kind := by
    have hdirty : (s.space o.space).table.isDirty o.va = e.flags.dirty :=
      (ht.loses.isDirty_eq o).symm.trans (PageTable.isDirty_eq hentry)
    have ho' : s.pager.resident.get? pa = some o := (congrFun ht.loses.resident pa).symm.trans ho
    have hpage' : s.page? o.id = some page := (congrFun ht.loses.pages o.id).symm.trans hpage
    simp [CannotPersist, ho', hpage', hdirty]
  rw [hcannot]
  refine (wp_persist_of_content (R := fun r _ => (s.Refuses e.flags.dirty page.kind → ∃ e, r = .error (.error e)) ∧
    (¬ s.Refuses e.flags.dirty page.kind → r = .ok ())) (wellFormed_withResident ht.steady.wellFormed q) pa
    (ht.steady.sound.page hpage).1 hpage hentry fun w hpager hfiles => ?_).of_ok hresult
  have hswap : w.pager.swap = t.pager.swap := by
    rw [hpager]
    rfl
  have hsame' : s.SameAnswers w := ⟨hswap ▸ hsame.disk, hswap ▸ hsame.slots, fun f => by
    rw [← file_view, View.file, hfiles]
    exact hsame.files f⟩
  have hroom' : w.pager.swap.alloc? ≠ none := by
    rw [SwapDevice.alloc?, Ne, Option.map_eq_none_iff, hsame'.slots]
    exact fun h => hroom (Option.map_eq_none_iff.2 h)
  refine (wp_persistContent_decided (hsame'.constant hconst) (hswap ▸ ht.steady.orderly.swap) hroom'
    (fun w hkind => ht.steady.sound.window_lt_limit hpage hkind) pa e.flags.dirty).mono (fun _ _ h => ?_) fun f _ h => ?_
  · rw [hsame'.refuses_iff] at h
    exact ⟨fun hbad => absurd hbad h, fun _ => rfl⟩
  · rw [hsame'.refuses_iff] at h
    obtain ⟨hbad, e, rfl⟩ := h
    exact ⟨fun _ => ⟨e, rfl⟩, fun hgood => absurd hbad hgood⟩

end System

end DemandPaging
