import DemandPaging.Proofs.SwapSlots

/-!
The slots of a swap device as stores of one page each. Whatever is asked of the device, a page stays in its slot until
that slot is written or freed, however many requests the disk refuses, and no request for a slot in use goes beyond the
end of the disk.
-/

namespace DemandPaging

namespace Disk

/-- What a request comes to, and what it leaves behind. -/
def outcome {α : Type} (x : EStateM Errno Disk α) (d : Disk) : Except Errno α × Disk :=
  match x d with
  | .ok a d => (.ok a, d)
  | .error e d => (.error e, d)

/-- An action that does nothing to the disk but ask for sectors in `R`, one after the other, each in view of the replies
before. -/
inductive Asks (R : Nat → Prop) {α : Type} : (Disk → α × Disk) → Prop
  | done (a : α) : Asks R fun d => (a, d)
  | read {s : Nat} {x : Except Errno SectorContent → Disk → α × Disk} (hs : R s) (hx : ∀ r, Asks R (x r)) :
    Asks R fun d => x (outcome (Disk.read s) d).1 (outcome (Disk.read s) d).2
  | write {s : Nat} (content : SectorContent) {x : Except Errno Unit → Disk → α × Disk} (hs : R s)
    (hx : ∀ r, Asks R (x r)) :
    Asks R fun d => x (outcome (Disk.write s content) d).1 (outcome (Disk.write s content) d).2

namespace Asks

variable {R : Nat → Prop} {α β : Type}

/-- One action, and then another one that depends on what came of it. -/
theorem bind {x : Disk → α × Disk} {f : α → Disk → β × Disk} (hx : Asks R x) (hf : ∀ a, Asks R (f a)) :
    Asks R fun d => f (x d).1 (x d).2 := by
  induction hx with
  | done a => exact hf a
  | read hs _ ih => exact .read hs ih
  | write content hs _ ih => exact .write content hs ih

theorem map {x : Disk → α × Disk} (f : α → β) (hx : Asks R x) : Asks R fun d => (f (x d).1, (x d).2) :=
  hx.bind fun a => .done (f a)

theorem of_read {s : Nat} (hs : R s) : Asks R (outcome (Disk.read s)) := .read hs .done

theorem of_write {s : Nat} (content : SectorContent) (hs : R s) : Asks R (outcome (Disk.write s content)) :=
  .write content hs .done

/-- An action that stops where a request is refused. -/
theorem outcome_bind {x : EStateM Errno Disk α} {f : α → EStateM Errno Disk β} (hx : Asks R (outcome x))
    (hf : ∀ a, Asks R (outcome (f a))) : Asks R (outcome (x >>= f)) := by
  have hbind := hx.bind (f := fun r d => match r with
    | .ok a => outcome (f a) d
    | .error e => (.error e, d)) fun r => by
      cases r with
      | ok a => exact hf a
      | error e => exact .done _
  convert hbind using 2 with d
  simp only [outcome, Bind.bind, EStateM.bind]
  cases x d <;> rfl

theorem outcome_forM {ι : Type} {f : ι → EStateM Errno Disk Unit} (is : List ι) (hf : ∀ i ∈ is, Asks R (outcome (f i))) :
    Asks R (outcome (is.forM f)) := by
  induction is with
  | nil => exact .done _
  | cons i is ih =>
    exact outcome_bind (hf i List.mem_cons_self) fun _ => ih fun j hj => hf j (List.mem_cons_of_mem i hj)

end Asks

end Disk

namespace SwapDevice

variable {t t' : SwapDevice} {s target : SwapSlot} {n : Nat}

/-! ### Sectors -/

/-- A page is read sector by sector. -/
theorem asks_readSectors {R : Nat → Prop} (ss : List Nat) (hss : ∀ s ∈ ss, R s) : Disk.Asks R (readSectors ss) := by
  induction ss with
  | nil => exact .done _
  | cons s ss ih =>
    have hrest := ih fun s hs => hss s (List.mem_cons_of_mem _ hs)
    have hread := Disk.Asks.read (R := R) (hss s List.mem_cons_self)
      (x := fun r d => match r with
        | .error e => (.stopped (.error e), d)
        | .ok content => ((readSectors ss d).1.after content.toList, (readSectors ss d).2)) fun r => by
      cases r with
      | error e => exact .done _
      | ok content => exact hrest.map fun t => t.after content.toList
    convert hread using 2 with d
    simp only [readSectors, Disk.outcome]
    cases Disk.read s d <;> rfl

/-- Whatever disk lies under the bitmap of `t`, to reply to `r` the device asks that disk for sectors below `n` only. -/
def StaysBelow (n : Nat) (t : SwapDevice) (r : SwapRequest) : Prop :=
  ∃ x : Disk → (SwapReply × IndexPool) × Disk, Disk.Asks (· < n) x ∧
    ∀ d, answer ⟨some d, t.slots⟩ r = ((x d).1.1, ⟨some (x d).2, (x d).1.2⟩)

/-- The sectors of a slot lie within those of the slots up to it. -/
theorem sector_add_lt {s : SwapSlot} {k i : Nat} (hs : s.index < k) (hi : i < sectorsPerPage) :
    s.sector + i < k * sectorsPerPage := by
  have hle := Nat.mul_le_mul_right sectorsPerPage (Nat.succ_le_of_lt hs)
  rw [Nat.succ_mul] at hle
  rw [SwapSlot.sector]
  omega

theorem onDisk_eq {α : Type} (x : EStateM Errno Disk α) (d : Disk) (slots : IndexPool) :
    onDisk x ⟨some d, slots⟩ = match Disk.outcome x d with
      | (.ok a, d) => .ok a ⟨some d, slots⟩
      | (.error e, d) => .error e ⟨some d, slots⟩ := by
  simp only [onDisk, Disk.outcome]
  cases x d <;> rfl

/-- A request ends with `reply` and leaves the bitmap `slots`, or it is refused and leaves `slots'`. -/
def concluded (reply : SwapReply) (slots slots' : IndexPool) : Except Errno Unit → SwapReply × IndexPool
  | .ok _ => (reply, slots)
  | .error e => (.refused e, slots')

theorem staysBelow_write (content : PageContent) (hs : ∀ i < sectorsPerPage, s.sector + i < n) :
    StaysBelow n t (.write s content) := by
  have hask := Disk.Asks.outcome_forM (R := (· < n))
    (f := fun i => Disk.write (s.sector + i) (sectorOf content i)) (List.range sectorsPerPage) fun i hi =>
      .of_write _ (hs i (List.mem_range.1 hi))
  refine ⟨_, hask.map (concluded .done t.slots t.slots), fun d => ?_⟩
  simp only [answer, write, onDisk_eq]
  rcases Disk.outcome _ d with ⟨_ | _, d'⟩ <;> rfl

theorem staysBelow_read (hs : ∀ i < sectorsPerPage, s.sector + i < n) : StaysBelow n t (.read s) := by
  have hask := asks_readSectors (R := (· < n)) ((List.range sectorsPerPage).map (s.sector + ·)) fun k hk => by
    obtain ⟨i, hi, rfl⟩ := List.mem_map.1 hk
    exact hs i (List.mem_range.1 hi)
  exact ⟨_, hask.map fun r => (.transfer r, t.slots), fun d => rfl⟩

theorem staysBelow_duplicate (hs : ∀ i < sectorsPerPage, s.sector + i < n)
    (htarget : ∀ target t', t.alloc? = some (target, t') → ∀ i < sectorsPerPage, target.sector + i < n) :
    StaysBelow n t (.duplicate s) := by
  cases htake : t.slots.take? with
  | none => exact ⟨_, .done (.refused .noSpace, t.slots), fun d => by simp [answer, duplicate, alloc?, htake]⟩
  | some found =>
    obtain ⟨k, slots⟩ := found
    have hbound := htarget ⟨k⟩ _ (by rw [alloc?, htake, Option.map_some])
    have hask := Disk.Asks.outcome_forM (R := (· < n))
      (f := fun i => do
        let content ← Disk.read (s.sector + i)
        Disk.write (SwapSlot.sector ⟨k⟩ + i) content)
      (List.range sectorsPerPage) fun i hi => .outcome_bind (.of_read (hs i (List.mem_range.1 hi)))
        fun content => .of_write content (hbound i (List.mem_range.1 hi))
    refine ⟨_, hask.map (concluded (.slot ⟨k⟩) slots ((slots.giveBack? k).getD slots)), fun d => ?_⟩
    simp only [answer, duplicate, alloc?, htake, Option.map_some, copy, onDisk_eq]
    rcases Disk.outcome _ d with ⟨_ | _, d'⟩ <;> rfl

/-- A request that moves the page of a slot in use stays below the end of the disk. -/
theorem WellFormed.staysBelow (h : t.WellFormed) (hs : t.isUsed s) (content : PageContent) :
    let n := (t.disk.map Disk.sectorCount).getD 0
    StaysBelow n t (.write s content) ∧ StaysBelow n t (.read s) ∧ StaysBelow n t (.duplicate s) := by
  have hbelow (slot : SwapSlot) (hslot : slot.index < t.capacity) (i : Nat) (hi : i < sectorsPerPage) :
      slot.sector + i < (t.disk.map Disk.sectorCount).getD 0 :=
    (sector_add_lt hslot hi).trans_le h.size
  have hlt : s.index < t.capacity := IndexPool.lt_of_mem_members (IndexPool.mem_members.2 hs)
  refine ⟨staysBelow_write content (hbelow s hlt), staysBelow_read (hbelow s hlt),
    staysBelow_duplicate (hbelow s hlt) fun target t' halloc => hbelow target ?_⟩
  obtain ⟨hnone, -⟩ | ⟨found, t₁, hsome, hfirst, -⟩ := h.alloc?_cases
  · rw [hnone] at halloc
    cases halloc
  · obtain ⟨rfl, rfl⟩ := Prod.mk.inj (Option.some.inj (hsome.symm.trans halloc))
    exact hfirst.1

/-! ### Pages -/

/-- The slots of a device as stores: the indices of those in use, and what each one holds. -/
structure Stores where
  used : Finset Nat
  content : SwapSlot → PageContent

/-- How stores that know nothing of each other change with the requests and what they reply. A write that is refused may
leave anything in its slot. A copy that is refused may do so in a slot that is not in use. -/
inductive Stores.Next : Stores → SwapRequest → SwapReply → Stores → Prop
  | alloc {v : Stores} {s : SwapSlot} (h : s.index ∉ v.used) :
    Next v .alloc (.slot s) { v with used := insert s.index v.used }
  | noSlot {v : Stores} : Next v .alloc .noSlot v
  | free {v : Stores} {s : SwapSlot} (h : s.index ∈ v.used) :
    Next v (.free s) .done { v with used := v.used.erase s.index }
  | notFreed {v : Stores} {s : SwapSlot} (p : Panic) : Next v (.free s) (.panic p) v
  | isUsed {v : Stores} {s : SwapSlot} (b : Bool) : Next v (.isUsed s) (.truth b) v
  | inUse {v : Stores} (n : Nat) : Next v .inUse (.count n) v
  | written {v : Stores} {s : SwapSlot} (page : PageContent) :
    Next v (.write s page) .done { v with content := Function.update v.content s page }
  | notWritten {v : Stores} {s : SwapSlot} (page left : PageContent) (e : Errno) :
    Next v (.write s page) (.refused e) { v with content := Function.update v.content s left }
  | read {v : Stores} {s : SwapSlot} : Next v (.read s) (.transfer ⟨(v.content s).toList, none⟩) v
  | notRead {v : Stores} {s : SwapSlot} (bytes : Bytes) (f : Failure) :
    Next v (.read s) (.transfer ⟨bytes, some f⟩) v
  | copied {v : Stores} {s target : SwapSlot} (h : target.index ∉ v.used) :
    Next v (.duplicate s) (.slot target)
      ⟨insert target.index v.used, Function.update v.content target (v.content s)⟩
  | notCopied {v : Stores} {s target : SwapSlot} (h : target.index ∉ v.used) (left : PageContent) (e : Errno) :
    Next v (.duplicate s) (.refused e) { v with content := Function.update v.content target left }
  | noRoom {v : Stores} {s : SwapSlot} (e : Errno) : Next v (.duplicate s) (.refused e) v
  | fail {v : Stores} (faults : Faults) : Next v (.fail faults) .done v

/-- The stores that the slots of `t` are. -/
def stores (t : SwapDevice) : Stores := ⟨t.slots.members, t.content⟩

theorem stores_eq {used : Finset Nat} {content : SwapSlot → PageContent} (hused : t.slots.members = used)
    (hcontent : t.content = content) : t.stores = ⟨used, content⟩ := by
  rw [stores, hused, hcontent]

theorem SameData.stores (h : SameData t t') : t'.stores = t.stores := by
  rw [SwapDevice.stores, h.slots, funext h.content]
  rfl

theorem SameOutside.stores (h : SameOutside s t t') :
    t'.stores = { t.stores with content := Function.update t.content s (t'.content s) } := by
  rw [SwapDevice.stores, h.slots, SwapDevice.stores, Stores.mk.injEq]
  refine ⟨rfl, funext fun s' => ?_⟩
  by_cases hs' : s' = s
  · rw [hs', Function.update_self]
  · rw [Function.update_of_ne hs', h.content s' hs']

theorem stores_of_disk (h : t'.disk = t.disk) : t'.stores = { t.stores with used := t'.slots.members } := by
  rw [SwapDevice.stores, funext (content_of_disk h)]
  rfl

theorem stores_fail (t : SwapDevice) (faults : Faults) :
    stores { t with disk := t.disk.map fun d => { d with faults := faults } } = t.stores := by
  refine stores_eq rfl (funext fun s => ?_)
  cases hdisk : t.disk <;> simp only [content, hdisk] <;> rfl

theorem WellFormed.next (h : t.WellFormed) (r : SwapRequest) :
    t.stores.Next r (t.answer r).1 (t.answer r).2.stores ∧ (t.answer r).2.WellFormed := by
  cases r with
  | alloc =>
    simp only [answer]
    obtain ⟨hnone, -⟩ | ⟨s, t', hsome, hfirst, ht', hdisk⟩ := h.alloc?_cases
    · rw [hnone]
      exact ⟨.noSlot, h⟩
    · rw [hsome, stores_of_disk hdisk, ht'.members]
      exact ⟨.alloc hfirst.2.1, ht'.wellFormed⟩
  | free s =>
    simp only [answer]
    by_cases hs : s.index ∈ t.slots.members
    · obtain ⟨t', hfree, ht', hdisk, -, hmembers⟩ := h.free hs
      rw [hfree, stores_of_disk hdisk, hmembers]
      exact ⟨.free hs, ht'⟩
    · rw [free_of_notMem hs]
      exact ⟨.notFreed _, h⟩
  | isUsed s => exact ⟨.isUsed _, h⟩
  | inUse => exact ⟨.inUse _, h⟩
  | write s page =>
    have hwrite := write_spec s page t
    simp only [answer]
    cases hresult : write s page t with
    | ok _ t' =>
      simp only [hresult] at hwrite
      rw [hwrite.1.stores, hwrite.2]
      exact ⟨.written page, hwrite.1.wellFormed h⟩
    | error e t' =>
      simp only [hresult] at hwrite
      rw [hwrite.stores]
      exact ⟨.notWritten page _ e, hwrite.wellFormed h⟩
  | read s =>
    obtain ⟨hsame, hbytes⟩ := read_spec s t
    simp only [answer]
    rw [hsame.stores]
    refine ⟨?_, hsame.wellFormed h⟩
    cases htransfer : (read s t).1 with | mk bytes failure
    rw [htransfer] at hbytes
    cases failure with
    | none =>
      obtain rfl : bytes = (t.content s).toList := hbytes rfl
      exact .read
    | some f => exact .notRead bytes f
  | duplicate s =>
    simp only [answer]
    obtain ⟨-, hfull⟩ | ⟨target, t₁, halloc, hcases⟩ := h.duplicate_cases s
    · rw [hfull]
      exact ⟨.noRoom _, h⟩
    · obtain ⟨-, -, -, hfree, hmembers, -⟩ := h.of_alloc? halloc
      cases hresult : SwapDevice.duplicate s t with
      | ok found t' =>
        simp only [hresult] at hcases ⊢
        obtain ⟨rfl, ht', hslots, hcontent⟩ := hcases
        rw [stores_eq (hslots ▸ hmembers) hcontent]
        exact ⟨.copied hfree, ht'⟩
      | error e t' =>
        simp only [hresult] at hcases ⊢
        obtain ⟨ht', hslots, hcontent⟩ := hcases
        rw [stores_eq (congrArg IndexPool.members hslots) hcontent]
        exact ⟨.notCopied hfree _ e, ht'⟩
  | fail faults =>
    simp only [answer]
    rw [stores_fail]
    exact ⟨.fail faults, (sameShape_fail t faults).wellFormed h⟩

/-- What the requests so far, and the replies to them, tell of a slot. -/
inductive SlotMemo where
  | free
  | unknown
  | holds (page : PageContent)

/-- A page is known by the last write to its slot, or by the copy that the slot was taken for, if that succeeded. Only
slots in use are told apart. -/
def learn (m : SwapSlot → SlotMemo) : SwapRequest × SwapReply → SwapSlot → SlotMemo
  | (.alloc, .slot s) => Function.update m s .unknown
  | (.free s, .done) => Function.update m s .free
  | (.write s page, .done) =>
    Function.update m s <| match m s with
      | .free => .free
      | _ => .holds page
  | (.write s _, .refused _) =>
    Function.update m s <| match m s with
      | .free => .free
      | _ => .unknown
  | (.duplicate s, .slot target) =>
    Function.update m target <| match m s with
      | .holds page => .holds page
      | _ => .unknown
  | _ => m

/-- What is told of the slot `s` is true. -/
def SlotMemo.Fits (v : Stores) (s : SwapSlot) : SlotMemo → Prop
  | .free => True
  | .unknown => s.index ∈ v.used
  | .holds page => s.index ∈ v.used ∧ v.content s = page

section Memo

variable {v w : Stores} {m : SwapSlot → SlotMemo} {x : SlotMemo} {r : SwapRequest} {reply : SwapReply}

theorem SlotMemo.Fits.mono (h : x.Fits v s) (hused : s.index ∈ v.used → s.index ∈ w.used)
    (hcontent : w.content s = v.content s) : x.Fits w s := by
  cases x with
  | free => trivial
  | unknown => exact hused h
  | holds page => exact ⟨hused h.1, hcontent.trans h.2⟩

/-- What is told of the other slots stays true. -/
theorem fits_update (hm : ∀ s, (m s).Fits v s) (hx : x.Fits w target)
    (hother : ∀ s, s ≠ target → (s.index ∈ v.used → s.index ∈ w.used) ∧ w.content s = v.content s) (s : SwapSlot) :
    (Function.update m target x s).Fits w s := by
  by_cases hs : s = target
  · rwa [hs, Function.update_self]
  · rw [Function.update_of_ne hs]
    exact (hm s).mono (hother s hs).1 (hother s hs).2

theorem index_ne (h : s ≠ target) : s.index ≠ target.index := fun he => h (by
  cases s
  cases target
  exact congrArg SwapSlot.mk he)

theorem Stores.Next.fits_learn (h : v.Next r reply w) (hm : ∀ s, (m s).Fits v s) (s : SwapSlot) :
    (learn m (r, reply) s).Fits w s := by
  have hcontent (target : SwapSlot) (page : PageContent) (s : SwapSlot) (hs : s ≠ target) :
      (s.index ∈ v.used → s.index ∈ v.used) ∧ Function.update v.content target page s = v.content s :=
    ⟨id, Function.update_of_ne hs _ _⟩
  cases h with
  | alloc _ =>
    exact fits_update (w := { v with used := _ }) hm (Finset.mem_insert_self ..)
      (fun s _ => ⟨Finset.mem_insert_of_mem, rfl⟩) s
  | free _ =>
    exact fits_update (x := .free) (w := { v with used := _ }) hm trivial
      (fun s hs => ⟨fun h => Finset.mem_erase.2 ⟨index_ne hs, h⟩, rfl⟩) s
  | @written target page =>
    refine fits_update hm ?_ (hcontent target page) s
    have htarget := hm target
    cases hmemo : m target with
    | free => trivial
    | unknown =>
      rw [hmemo] at htarget
      exact ⟨htarget, Function.update_self ..⟩
    | holds _ =>
      rw [hmemo] at htarget
      exact ⟨htarget.1, Function.update_self ..⟩
  | @notWritten target page left e =>
    refine fits_update hm ?_ (hcontent target left) s
    have htarget := hm target
    cases hmemo : m target with
    | free => trivial
    | unknown =>
      rw [hmemo] at htarget
      exact htarget
    | holds _ =>
      rw [hmemo] at htarget
      exact htarget.1
  | @copied source target _ =>
    refine fits_update hm ?_
      (fun s hs => ⟨fun h => Finset.mem_insert_of_mem h, Function.update_of_ne hs _ _⟩) s
    have hsource := hm source
    have hused : target.index ∈ insert target.index v.used := Finset.mem_insert_self ..
    cases hmemo : m source with
    | free => exact hused
    | unknown => exact hused
    | holds page =>
      rw [hmemo] at hsource
      exact ⟨hused, (Function.update_self ..).trans hsource.2⟩
  | @notCopied source target hfree left e =>
    -- The slot that the copy was taken back from was not in use, and nothing is told of such a slot.
    change (m s).Fits _ s
    by_cases hs : s = target
    · have hsource := hm s
      cases hmemo : m s with
      | free => trivial
      | unknown =>
        rw [hmemo, hs] at hsource
        exact absurd hsource hfree
      | holds _ =>
        rw [hmemo, hs] at hsource
        exact absurd hsource.1 hfree
    · exact (hm s).mono id (Function.update_of_ne hs _ _)
  | _ => exact hm s

/-- What a session tells of the slots is true in the end. -/
theorem fits_foldl_learn {requests : List SwapRequest} {replies : List SwapReply}
    (h : Obeys Stores.Next v requests replies w) (hm : ∀ s, (m s).Fits v s) (s : SwapSlot) :
    ((requests.zip replies).foldl learn m s).Fits w s := by
  induction h generalizing m with
  | nil => exact hm s
  | cons hnext _ ih => exact ih fun s => hnext.fits_learn hm s

end Memo

/-- From a new table on, over a disk that holds and refuses anything, any requests are replied to as by stores that know
nothing of each other. At any time, a slot in use is read as the page last written to it, or copied into it when it was
taken, unless a write to it was refused after that, and to move its page the device asks for sectors of the disk only. -/
theorem replies_as_stores (disk : Option Disk) (requests : List SwapRequest) :
    let (replies, t) := session answer (new disk) requests
    Obeys Stores.Next (stores (new disk)) requests replies t.stores ∧
      (∀ s page, (requests.zip replies).foldl learn (fun _ => .free) s = .holds page →
        (read s t).1.failure = none → (read s t).1.bytes = page.toList) ∧
      ∀ s, t.isUsed s → ∀ content,
        let n := (t.disk.map Disk.sectorCount).getD 0
        StaysBelow n t (.write s content) ∧ StaysBelow n t (.read s) ∧ StaysBelow n t (.duplicate s) := by
  obtain ⟨v, hobeys, rfl, hwf⟩ := session_obeys
    (R := fun (t : SwapDevice) v => t.stores = v ∧ t.WellFormed)
    (fun t _ r ⟨hv, h⟩ => ⟨_, hv ▸ (h.next r).1, rfl, (h.next r).2⟩) ⟨rfl, wellFormed_new disk⟩ requests
  refine ⟨hobeys, fun s page hpage hread => ?_, fun s hs content => hwf.staysBelow hs content⟩
  have hfits := fits_foldl_learn hobeys (m := fun _ => .free) (fun _ => trivial) s
  rw [hpage] at hfits
  rw [(read_spec s _).2 hread]
  exact congrArg Vector.toList hfits.2

end SwapDevice

end DemandPaging
