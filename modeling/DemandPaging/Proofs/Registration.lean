import Mathlib.Algebra.Order.Floor.Div
import DemandPaging.Proofs.Calm
import DemandPaging.Proofs.Reachability

/-!
Pages that are described all together or not at all. To describe a run of pages changes the table of pages and nothing
else, so if one of them is refused, those in front of it go away again without a trace. What a mapping of a file
registers follows from that exactly.
-/

namespace DemandPaging

open Paging

variable {id : SpaceId} {va : VirtAddr} {pages : Std.ExtTreeMap VirtAddr PageEntry} {s : System}

namespace System

/-- The system in which the pages of `id` are `pages`. -/
def withPages (s : System) (id : SpaceId) (pages : Std.ExtTreeMap VirtAddr PageEntry) : System :=
  { s with spaces := s.spaces.modify id fun sp => { sp with pages := pages } }

theorem space_withPages (hid : id ∈ s.spaces) :
    (s.withPages id pages).space id = { s.space id with pages := pages } := by
  rw [withPages, space_modify hid, if_pos rfl]

theorem mem_spaces_withPages {id' : SpaceId} : id' ∈ (s.withPages id pages).spaces ↔ id' ∈ s.spaces :=
  mem_spaces_modify _

theorem withPages_self (s : System) (id : SpaceId) : s.withPages id (s.space id).pages = s := by
  have hsame :
      s.spaces.modify id (fun sp => { sp with pages := (s.space id).pages }) = s.spaces.modify id fun sp => sp :=
    modify_spaces_congr rfl
  have hself : s.spaces.modify id (fun sp => sp) = s.spaces := by
    refine Std.ExtTreeMap.ext_getElem? fun id' => ?_
    rw [Std.ExtTreeMap.getElem?_modify]
    split
    next h =>
      obtain rfl : id = id' := Std.LawfulEqCmp.eq_of_compare h
      exact Option.map_id'
    next => rfl
  rw [withPages, hsame, hself]

theorem page?_withPages (hid : id ∈ s.spaces) (p : PageId) :
    (s.withPages id pages).page? p = if p.space = id then pages[p.va]? else s.page? p := by
  rw [page?, withPages, space_modify hid]
  split <;> rfl

end System

/-! ### Single pages -/

/-- The reason why no page can be described at the page address `va` beside `pages`, if there is one. -/
def pageRefusal? (pages : Std.ExtTreeMap VirtAddr PageEntry) (va : VirtAddr) : Option Errno :=
  if kernelBase ≤ va.toNat then some .badAddress else if va ∈ pages then some .fileExist else none

theorem pageRefusal?_eq_none_iff : pageRefusal? pages va = none ↔ va.toNat < kernelBase ∧ va ∉ pages := by
  unfold pageRefusal?
  split
  next h => simp [Nat.not_lt.2 h]
  next h => simp [Nat.not_le.1 h]

theorem pageRefusal?_congr {pages' : Std.ExtTreeMap VirtAddr PageEntry} (h : pages[va]? = pages'[va]?) :
    pageRefusal? pages va = pageRefusal? pages' va := by
  simp only [pageRefusal?, Std.ExtTreeMap.mem_iff_isSome_getElem?, h]

namespace Paging

/-- What an action on the pages of an address space leaves behind depends on these pages only. -/
theorem modifySpace_withPages {f : Space → Space} {pages' : Std.ExtTreeMap VirtAddr PageEntry}
    (hf : ∀ sp : Space, f { sp with pages := pages } = { sp with pages := pages' }) :
    modifySpace id f (s.withPages id pages) = .ok () (s.withPages id pages') := by
  have hspaces : (s.spaces.modify id fun sp => { sp with pages := pages }).modify id f =
      s.spaces.modify id fun sp => { sp with pages := pages' } := by
    refine Std.ExtTreeMap.ext_getElem? fun id' => ?_
    simp only [Std.ExtTreeMap.getElem?_modify, Std.ReflCmp.compare_self, ↓reduceIte]
    split
    · rw [Option.map_map]
      exact congrArg (Option.map · _) (funext hf)
    · rfl
  exact congrArg (fun spaces => EStateM.Result.ok () { s with spaces := spaces }) hspaces

/-- A page is described, or the table of pages stays as it is. -/
theorem addPage_withPages (hid : id ∈ s.spaces) (haligned : va.offset = 0) {type : PageType} {source : Source}
    {q : Pending} (hq : Pending.of? type source = some q) (writable : Bool) :
    addPage id type va writable source (s.withPages id pages) =
      match pageRefusal? pages va with
      | some e => .error (.error e) (s.withPages id pages)
      | none => .ok () (s.withPages id (pages.insert va (.pending writable q))) := by
  have hpages : ((s.withPages id pages).space id).pages = pages := by rw [System.space_withPages hid]
  unfold addPage pageRefusal?
  split
  · rfl
  · simp only [hq, VirtAddr.pageDown_of_aligned haligned]
    change (if va ∈ ((s.withPages id pages).space id).pages then _ else _ : Paging Unit) (s.withPages id pages) = _
    rw [hpages]
    split
    · rfl
    · exact modifySpace_withPages fun _ => rfl

/-- A page that was never used owns nothing, so that only the table of pages shows that it is gone. -/
theorem removePage_withPages (hid : id ∈ s.spaces) (haligned : va.offset = 0) {writable : Bool} {q : Pending}
    (hpage : pages[va]? = some (.pending writable q)) :
    removePage id va (s.withPages id pages) = .ok () (s.withPages id (pages.erase va)) := by
  have hfound : ((s.withPages id pages).space id).page? va = some (.pending writable q) := by
    rw [System.space_withPages hid, Space.page?, VirtAddr.pageDown_of_aligned haligned, hpage]
  unfold removePage
  rw [space_bind, hfound, VirtAddr.pageDown_of_aligned haligned]
  exact bind_eq_of_eq_ok (modifySpace_withPages fun _ => rfl) _

end Paging

/-! ### Runs of pages -/

/-- A run of pages that were never used: the `i`-th one behind `start` will be what `content i` says. -/
structure PageRun where
  start : VirtAddr
  writable : Bool
  content : Nat → Pending

namespace PageRun

variable {r : PageRun} {i j n : Nat}

/-- The address of the `i`-th page. -/
def addr (r : PageRun) (i : Nat) : VirtAddr := ⟨r.start.toNat + i * pageSize⟩

/-- The `i`-th page. -/
def page (r : PageRun) (i : Nat) : PageEntry := .pending r.writable (r.content i)

/-- The table `pages` with the pages of the run from the `i`-th one on, `n` of them. -/
def lay (r : PageRun) (pages : Std.ExtTreeMap VirtAddr PageEntry) (i : Nat) : Nat → Std.ExtTreeMap VirtAddr PageEntry
  | 0 => pages
  | n + 1 => (r.lay pages i n).insert (r.addr (i + n)) (r.page (i + n))

/-- The reason why the pages from the `i`-th one on, `n` of them, cannot all be described beside `pages`: that of the
first of them that cannot. -/
def refusal? (r : PageRun) (pages : Std.ExtTreeMap VirtAddr PageEntry) (i n : Nat) : Option Errno :=
  (List.range' i n).findSome? fun j => pageRefusal? pages (r.addr j)

theorem addr_inj : r.addr i = r.addr j ↔ i = j := by
  simp only [addr, VirtAddr.mk.injEq, pageSize]
  omega

theorem offset_addr (h : r.start.offset = 0) (i : Nat) : (r.addr i).offset = 0 := by
  simp only [VirtAddr.offset, addr, Nat.add_mul_mod_self_right] at h ⊢
  exact h

theorem addr_mono (h : i ≤ j) : (r.addr i).toNat ≤ (r.addr j).toNat :=
  Nat.add_le_add_left (Nat.mul_le_mul_right _ h) _

theorem addr_succ : (r.addr (i + 1)).toNat = (r.addr i).toNat + pageSize := by
  simp only [addr, Nat.succ_mul, Nat.add_assoc]

theorem getElem?_lay_of_ne (h : ∀ j, i ≤ j → j < i + n → va ≠ r.addr j) : (r.lay pages i n)[va]? = pages[va]? := by
  induction n with
  | zero => rfl
  | succ n ih =>
    have hne : ¬ compare (r.addr (i + n)) va = .eq := fun heq =>
      h (i + n) (by omega) (by omega) (Std.LawfulEqCmp.eq_of_compare heq).symm
    rw [lay, Std.ExtTreeMap.getElem?_insert, if_neg hne]
    exact ih fun j hj hj' => h j hj (by omega)

theorem getElem?_lay_addr (hi : i ≤ j) (hj : j < i + n) : (r.lay pages i n)[r.addr j]? = some (r.page j) := by
  induction n with
  | zero => omega
  | succ n ih =>
    rw [lay, Std.ExtTreeMap.getElem?_insert]
    split
    next heq =>
      obtain rfl := addr_inj.1 (Std.LawfulEqCmp.eq_of_compare heq)
      rfl
    next hne => exact ih (Nat.lt_of_le_of_ne (by omega) fun heq => hne (by rw [heq]; exact Std.ReflCmp.compare_self))

/-- Where there was nothing before, the first page of a run can be taken away again. -/
theorem erase_lay (hfree : r.addr i ∉ pages) : (r.lay pages i (n + 1)).erase (r.addr i) = r.lay pages (i + 1) n := by
  refine Std.ExtTreeMap.ext_getElem? fun va => ?_
  rw [Std.ExtTreeMap.getElem?_erase]
  split
  next heq =>
    obtain rfl := Std.LawfulEqCmp.eq_of_compare heq
    rw [getElem?_lay_of_ne fun j hj _ heq => absurd (addr_inj.1 heq) (by omega)]
    exact (Std.ExtTreeMap.getElem?_eq_none hfree).symm
  next hne =>
    by_cases h : ∃ j, i + 1 ≤ j ∧ j < i + 1 + n ∧ va = r.addr j
    · obtain ⟨j, hj, hj', rfl⟩ := h
      rw [getElem?_lay_addr (by omega) (by omega), getElem?_lay_addr hj hj']
    · simp only [not_exists, not_and] at h
      rw [getElem?_lay_of_ne h]
      refine getElem?_lay_of_ne fun j hj hj' heq => ?_
      obtain rfl | hlt := Nat.eq_or_lt_of_le hj
      · exact hne (by rw [heq]; exact Std.ReflCmp.compare_self)
      · exact h j hlt (by omega) heq

theorem refusal?_succ : r.refusal? pages i (n + 1) =
    (pageRefusal? pages (r.addr i)).or (r.refusal? pages (i + 1) n) := by
  rw [refusal?, List.range'_succ, List.findSome?_cons]
  cases pageRefusal? pages (r.addr i) <;> rfl

theorem refusal?_eq_none_iff : r.refusal? pages i n = none ↔
    ∀ j, i ≤ j → j < i + n → (r.addr j).toNat < kernelBase ∧ r.addr j ∉ pages := by
  simp only [refusal?, List.findSome?_eq_none_iff, List.mem_range'_1, pageRefusal?_eq_none_iff, and_imp]

/-- Pages that were described go away again, and the table of pages is what it was before. -/
theorem dropPages_lay (hid : id ∈ s.spaces) (haligned : r.start.offset = 0) (failed : VirtAddr → Errno → Event)
    (hword : ∀ j < i + n, (r.addr j).toNat < Word.limit) (hfree : ∀ j, i ≤ j → j < i + n → r.addr j ∉ pages) :
    dropPages id r.start failed n i (s.withPages id (r.lay pages i n)) = .ok () (s.withPages id pages) := by
  induction n generalizing i with
  | zero => rfl
  | succ n ih =>
    have hlimit : r.start.toNat + i * pageSize < Word.limit := hword i (by omega)
    have hmul : Word.mul i pageSize = .ok (i * pageSize) := Word.mul_eq_ok_iff.2 ⟨by omega, rfl⟩
    have hadd : r.start.add (i * pageSize) = .ok (r.addr i) := VirtAddr.add_eq_ok_iff.2 ⟨hlimit, rfl⟩
    have hremove : removePage id (r.addr i) (s.withPages id (r.lay pages i (n + 1))) =
        .ok () (s.withPages id (r.lay pages (i + 1) n)) := by
      rw [removePage_withPages hid (offset_addr haligned i) (getElem?_lay_addr le_rfl (by omega)),
        erase_lay (hfree i le_rfl (by omega))]
    have hcaught : caught (removePage id (r.addr i)) (s.withPages id (r.lay pages i (n + 1))) =
        .ok (.ok ()) (s.withPages id (r.lay pages (i + 1) n)) := by rw [caught, hremove]
    unfold dropPages
    rw [hmul, word_ok_bind, hadd, word_ok_bind, bind_eq_of_eq_ok hcaught]
    exact ih (fun j hj => hword j (by omega)) fun j hj hj' => hfree j (by omega) (by omega)

/-- The next page of a run is described, or the pages in front of it go away again. -/
theorem orUndo_addPage_lay (hid : id ∈ s.spaces) (haligned : r.start.offset = 0)
    (hword : (r.addr i).toNat < Word.limit) {type : PageType} {source : Source}
    (hsource : Pending.of? type source = some (r.content i)) (failed : VirtAddr → Errno → Event)
    (hfree : ∀ j < i, r.addr j ∉ pages) :
    orUndo (addPage id type (r.addr i) r.writable source) (dropPages id r.start failed i 0)
        (s.withPages id (r.lay pages 0 i)) =
      match pageRefusal? pages (r.addr i) with
      | some e => .error (.error e) (s.withPages id pages)
      | none => .ok () (s.withPages id (r.lay pages 0 (i + 1))) := by
  have hsame : (r.lay pages 0 i)[r.addr i]? = pages[r.addr i]? :=
    getElem?_lay_of_ne fun j _ hj heq => absurd (addr_inj.1 heq) (by omega)
  have hadd : addPage id type (r.addr i) r.writable source (s.withPages id (r.lay pages 0 i)) = _ :=
    addPage_withPages hid (offset_addr haligned i) hsource r.writable
  rw [pageRefusal?_congr hsame] at hadd
  unfold orUndo
  cases hwhy : pageRefusal? pages (r.addr i) with
  | none =>
    simp only [hwhy] at hadd
    have hcaught := caught_of_eq_ok hadd
    rw [bind_eq_of_eq_ok hcaught, lay, Nat.zero_add]
    rfl
  | some e =>
    simp only [hwhy] at hadd
    have hdrop := dropPages_lay (i := 0) (n := i) hid haligned failed
      (fun j hj => Nat.lt_of_le_of_lt (addr_mono (by omega)) hword) fun j _ hj => hfree j (by omega)
    rw [bind_eq_of_eq_ok (caught_of_eq_error hadd)]
    exact bind_eq_of_eq_ok hdrop _

/-- A loop that describes the pages of a run one after the other, and takes them all away again where one is refused,
registers them all or leaves everything as it was. No address on its way is too large for a word. -/
theorem loop_withPages {loop : Nat → Nat → Paging Unit} {count : Nat} (type : PageType) (source : Nat → Source)
    (failed : VirtAddr → Errno → Event) (hid : id ∈ s.spaces) (haligned : r.start.offset = 0)
    (hsource : ∀ i < count, Pending.of? type (source i) = some (r.content i)) (hend : ∀ i, loop 0 i = pure ())
    (hnext : ∀ n i, i + (n + 1) = count → (r.addr i).toNat < Word.limit →
      loop (n + 1) i = orUndo (addPage id type (r.addr i) r.writable (source i)) (dropPages id r.start failed i 0) >>=
        fun _ => loop n (i + 1))
    (hcount : i + n = count) (hword : (r.addr i).toNat < Word.limit) (hfree : ∀ j < i, r.addr j ∉ pages) :
    loop n i (s.withPages id (r.lay pages 0 i)) =
      match r.refusal? pages i n with
      | some e => .error (.error e) (s.withPages id pages)
      | none => .ok () (s.withPages id (r.lay pages 0 count)) := by
  induction n generalizing i with
  | zero =>
    obtain rfl : i = count := hcount
    rw [hend]
    rfl
  | succ n ih =>
    have hstep := orUndo_addPage_lay hid haligned hword (hsource i (by omega)) failed hfree
    rw [hnext n i hcount hword, refusal?_succ]
    cases hwhy : pageRefusal? pages (r.addr i) with
    | some e =>
      simp only [hwhy] at hstep
      exact bind_eq_of_eq_error hstep _
    | none =>
      simp only [hwhy] at hstep
      obtain ⟨huser, hnew⟩ := pageRefusal?_eq_none_iff.1 hwhy
      rw [bind_eq_of_eq_ok hstep]
      refine ih (by omega) ?_ fun j hj => ?_
      · rw [addr_succ]
        exact Nat.lt_of_lt_of_le (Nat.add_lt_add_right huser _) (by decide)
      · obtain rfl | hlt := Nat.eq_or_lt_of_le (Nat.le_of_lt_succ hj)
        · exact hnew
        · exact hfree j hlt

/-- So it is for the whole run. -/
theorem loop_apply {loop : Nat → Nat → Paging Unit} {count : Nat} (type : PageType) (source : Nat → Source)
    (failed : VirtAddr → Errno → Event) (hid : id ∈ s.spaces) (haligned : r.start.offset = 0)
    (hword : r.start.toNat < Word.limit) (hsource : ∀ i < count, Pending.of? type (source i) = some (r.content i))
    (hend : ∀ i, loop 0 i = pure ())
    (hnext : ∀ n i, i + (n + 1) = count → (r.addr i).toNat < Word.limit →
      loop (n + 1) i = orUndo (addPage id type (r.addr i) r.writable (source i)) (dropPages id r.start failed i 0) >>=
        fun _ => loop n (i + 1)) :
    loop count 0 s = match r.refusal? (s.space id).pages 0 count with
      | some e => .error (.error e) s
      | none => .ok () (s.withPages id (r.lay (s.space id).pages 0 count)) := by
  have hloop : loop count 0 (s.withPages id (r.lay (s.space id).pages 0 0)) = _ :=
    loop_withPages type source failed hid haligned hsource hend hnext (Nat.zero_add _) (by simpa [addr] using hword)
      fun j hj => absurd hj (Nat.not_lt_zero j)
  rwa [lay, System.withPages_self] at hloop

end PageRun

/-! ### Mappings -/

namespace Mapping

variable {m : Mapping} {i : Nat}

/-- The pages of the mapping as a run. -/
def run (m : Mapping) : PageRun := ⟨m.start, m.writable, fun i => .file (m.window i)⟩

/-- What is asked for makes sense: some bytes of a file that has them, and pages to show them on. -/
structure IsRequest (m : Mapping) (length size : Nat) : Prop where
  length_ne : length ≠ 0
  size_ne : size ≠ 0
  start_ne : m.start.toNat ≠ 0
  start_aligned : m.start.offset = 0
  offset_aligned : m.offset % pageSize = 0
  offset_lt : m.offset < size

/-- Why the mapping of `length` bytes cannot be made in `s`. It is looked at first what is asked for, then where it is to
be, and only then what is there already. -/
inductive Refused (m : Mapping) (s : System) (length : Nat) : Errno → Prop
  | invalid (hrequest : ¬ m.IsRequest length (s.file m.file).size) : Refused m s length .invalidArgument
  | kernel (hrequest : m.IsRequest length (s.file m.file).size)
    (hlimit : kernelBase < m.start.toNat + m.count * pageSize) : Refused m s length .badAddress
  | taken (hrequest : m.IsRequest length (s.file m.file).size)
    (hlimit : m.start.toNat + m.count * pageSize ≤ kernelBase) {i : Nat} (hi : i < m.count)
    (hpage : (s.page? (m.place i)).isSome) : Refused m s length .fileExist

/-- The pages of the mapping, none of which was there in `s`, are described in `t`, and its region is recorded. Nothing
else has changed. -/
structure Registers (m : Mapping) (s t : System) : Prop where
  missing : ∀ i < m.count, s.page? (m.place i) = none
  page : ∀ i < m.count, t.page? (m.place i) = some (.pending m.writable (.file (m.window i)))
  others : ∀ p, ¬ m.IsPlace p → t.page? p = s.page? p
  regions : t.region? = Function.update s.region? m.origin (some m.region)
  view : t.view = { s.view with pages := t.page?, regions := t.region? }
  pager : t.pager = s.pager
  log : t.log = s.log.push (.mapped m.start (m.start.toNat + m.count * pageSize) m.count m.offset)

/-- There are as many windows as it takes for the covered bytes. Each of them fills a page and has bytes of the file,
they join, and together they are over the covered bytes and no others. -/
structure Tiles (m : Mapping) : Prop where
  count : m.count = m.covered ⌈/⌉ pageSize
  window : ∀ i < m.count, (m.window i).file = m.file ∧ (m.window i).offset = m.offset + pageSize * i ∧
    0 < (m.window i).readBytes ∧ (m.window i).readBytes + (m.window i).zeroBytes = pageSize
  joined : ∀ i, i + 1 < m.count → (m.window i).offset + (m.window i).readBytes = (m.window (i + 1)).offset
  covered : ∀ k, m.offset ≤ k ∧ k < m.offset + m.covered ↔
    ∃ i < m.count, (m.window i).offset ≤ k ∧ k < (m.window i).offset + (m.window i).readBytes

theorem tiles (m : Mapping) : m.Tiles where
  count := (Nat.ceilDiv_eq_add_pred_div m.covered pageSize).symm
  window i hi := by
    have hlt := lt_count_iff.1 hi
    refine ⟨rfl, by rw [window, FileWindow.new, Nat.mul_comm], ?_, Nat.add_sub_cancel' (m.window i).readBytes_le⟩
    simp only [window, FileWindow.new, pageSize] at *
    omega
  joined i hi := by
    have hlt := lt_count_iff.1 hi
    simp only [window, FileWindow.new, pageSize] at *
    omega
  covered k := by
    simp only [lt_count_iff, window, FileWindow.new]
    constructor
    · rintro ⟨hle, hlt⟩
      refine ⟨(k - m.offset) / pageSize, ?_⟩
      have hdiv := Nat.div_add_mod (k - m.offset) pageSize
      have hmod := Nat.mod_lt (k - m.offset) (by decide : 0 < pageSize)
      rw [Nat.mul_comm] at hdiv
      omega
    · rintro ⟨i, hi, hle, hlt⟩
      omega

/-- No part of a file of less than `2 ^ 63` bytes begins where no word leads. -/
theorem position_lt (hcovered : m.offset + m.covered < 2 ^ 63) (hi : i < m.count) :
    m.offset + i * pageSize < Word.limit := by
  have hlt := lt_count_iff.1 hi
  have hlimit : Word.limit = 2 ^ 64 := by decide
  omega

theorem mul_count (hcovered : m.covered < 2 ^ 63) : Word.mul m.count pageSize = .ok (m.count * pageSize) := by
  have hlimit : Word.limit = 2 ^ 64 := by decide
  refine Word.mul_eq_ok_iff.2 ⟨?_, rfl⟩
  simp only [count, pageSize] at *
  omega

/-- A mapping whose end is no word reaches the kernel half. -/
theorem kernelBase_lt_of_overflow {o : Overflow} (h : Word.add m.start.toNat (m.count * pageSize) = .error o) :
    kernelBase < m.start.toNat + m.count * pageSize := by
  have hbase : kernelBase < Word.limit := by decide
  have hover : ¬ m.start.toNat + m.count * pageSize < Word.limit := fun hlt => by
    rw [Word.add_eq_ok_iff.2 ⟨hlt, rfl⟩] at h
    cases h
  omega

theorem place_ne_of_not_isPlace {p : PageId} (hp : ¬ m.IsPlace p) (hspace : p.space = m.space) {j : Nat}
    (hj : j < m.count) : p.va ≠ m.run.addr j := by
  intro hva
  refine hp ⟨j, hj, ?_⟩
  cases p
  cases hspace
  cases hva
  rfl

/-- The system `s` with the pages of the mapping and its region. -/
def registered (m : Mapping) (s : System) : System :=
  let t := s.withPages m.space (m.run.lay (s.space m.space).pages 0 m.count)
  { t with
    spaces := t.spaces.modify m.space fun sp => { sp with regions := sp.regions.insert m.start m.region }
    log := t.log.push (.mapped m.start (m.start.toNat + m.count * pageSize) m.count m.offset) }

theorem space_registered (hid : m.space ∈ s.spaces) (id' : SpaceId) :
    (m.registered s).space id' =
      if id' = m.space then { s.space m.space with
        pages := m.run.lay (s.space m.space).pages 0 m.count
        regions := (s.space m.space).regions.insert m.start m.region }
      else s.space id' := by
  have hid' : m.space ∈ (s.withPages m.space (m.run.lay (s.space m.space).pages 0 m.count)).spaces :=
    System.mem_spaces_withPages.2 hid
  have hspace := System.space_modify hid' (fun sp => { sp with regions := sp.regions.insert m.start m.region }) id'
  rw [System.space_withPages hid] at hspace
  refine hspace.trans ?_
  split
  · rfl
  next hne => rw [System.withPages, System.space_modify hid, if_neg hne]

/-- What is described is what `registered` says, and nothing else has changed. -/
theorem registers (hid : m.space ∈ s.spaces) (hmissing : ∀ i < m.count, s.page? (m.place i) = none) :
    m.Registers s (m.registered s) where
  missing := hmissing
  page i hi := by
    have hspace : (m.place i).space = m.space := rfl
    rw [System.page?, space_registered hid, if_pos hspace]
    exact PageRun.getElem?_lay_addr (r := m.run) (Nat.zero_le i) (by omega)
  others p hp := by
    rw [System.page?, space_registered hid]
    split
    next hspace =>
      rw [PageRun.getElem?_lay_of_ne fun j _ hj => place_ne_of_not_isPlace hp hspace (by omega), System.page?, hspace]
    next => rfl
  regions := by
    funext p
    rw [Function.update_apply, System.region?, space_registered hid]
    split
    next hspace =>
      have horigin : compare m.start p.va = .eq ↔ p = m.origin := by
        cases p
        cases hspace
        rw [Std.compare_eq_iff_eq]
        simp [origin, eq_comm]
      rw [Std.ExtTreeMap.getElem?_insert]
      simp only [horigin, System.region?, hspace]
    next hspace =>
      rw [if_neg fun h => hspace (congrArg PageId.space h)]
      rfl
  view := by
    have hsame {β : Type} (get : Space → VirtAddr → β) (hget : ∀ sp pages regions va,
        get { sp with pages := pages, regions := regions } va = get sp va) (p : PageId) :
        get ((m.registered s).space p.space) p.va = get (s.space p.space) p.va := by
      rw [space_registered hid]
      split
      next hspace => rw [hspace]; exact hget ..
      next => rfl
    unfold System.view
    congr 1
    · exact funext fun id' => propext (System.mem_spaces_modify _ |>.trans System.mem_spaces_withPages)
    · exact funext fun p => hsame (fun sp va => sp.table.entries[va]?) (fun _ _ _ _ => rfl) p
    · exact funext fun p => hsame (fun sp va => va ∈ sp.table.refuseMap) (fun _ _ _ _ => rfl) p
  pager := rfl
  log := rfl

end Mapping

namespace Paging

variable {m : Mapping}

/-- A mapping whose numbers are words describes all its pages, or none of them. -/
theorem mapPages_apply (hid : m.space ∈ s.spaces) (haligned : m.start.offset = 0) (hstart : m.start.toNat < Word.limit)
    (hposition : ∀ i < m.count, m.offset + i * pageSize < Word.limit) :
    mapPages m.space m.start m.writable m.file m.offset m.covered m.count 0 s =
      match m.run.refusal? (s.space m.space).pages 0 m.count with
      | some e => .error (.error e) s
      | none => .ok () (s.withPages m.space (m.run.lay (s.space m.space).pages 0 m.count)) := by
  refine PageRun.loop_apply .file (fun i => .file (m.window i)) .mappingUndoFailed hid haligned hstart (fun _ _ => rfl)
    (fun _ => rfl) fun n i hi hword => ?_
  have hmul : Word.mul i pageSize = .ok (i * pageSize) :=
    Word.mul_eq_ok_iff.2 ⟨Nat.lt_of_le_of_lt (Nat.le_add_left ..) hword, rfl⟩
  have hadd : m.start.add (i * pageSize) = .ok (m.run.addr i) := VirtAddr.add_eq_ok_iff.2 ⟨hword, rfl⟩
  have hoffset : Word.add m.offset (i * pageSize) = .ok (m.offset + i * pageSize) :=
    Word.add_eq_ok_iff.2 ⟨hposition i (by omega), rfl⟩
  rw [mapPages, hmul, word_ok_bind, hadd, word_ok_bind, hoffset, word_ok_bind]
  rfl

/-- A mapping is refused and nothing happens, or it is registered. -/
theorem wp_mmap (hid : m.space ∈ s.spaces) {length : Nat}
    (hcovered : m.covered = min length ((s.file m.file).size - m.offset)) (hsize : (s.file m.file).size < 2 ^ 63) :
    wp (mmap m.space m.start length m.writable m.file m.offset) s
      (fun a t => a = m.start ∧ m.IsRequest length (s.file m.file).size ∧
        m.start.toNat + m.count * pageSize ≤ kernelBase ∧ m.Registers s t)
      fun f t => t = s ∧ ∃ e, f = .error e ∧ m.Refused s length e := by
  unfold mmap
  simp only [wp_bind, wp_file, wp_ite, wp_fail]
  split
  next hwrong =>
    refine ⟨trivial, _, rfl, .invalid fun h => ?_⟩
    simp [h.length_ne, h.size_ne, h.start_ne, h.start_aligned, h.offset_aligned, Nat.not_le.2 h.offset_lt] at hwrong
  next hright =>
    simp only [not_or, not_not, Nat.not_le] at hright
    have hrequest : m.IsRequest length (s.file m.file).size :=
      ⟨hright.1, hright.2.1, hright.2.2.1, hright.2.2.2.1, hright.2.2.2.2.1, hright.2.2.2.2.2⟩
    have hinside : m.offset + m.covered < 2 ^ 63 := by have := hrequest.offset_lt; omega
    rw [← hcovered, show (m.covered + (pageSize - 1)) / pageSize = m.count from rfl, Mapping.mul_count (by omega),
      wp_word_ok]
    cases hend : Word.add m.start.toNat (m.count * pageSize) with
    | error o => exact ⟨rfl, _, rfl, .kernel hrequest (Mapping.kernelBase_lt_of_overflow hend)⟩
    | ok limit =>
      obtain ⟨hword, rfl⟩ := Word.add_eq_ok_iff.1 hend
      simp only [wp_bind, wp_ite, wp_fail, wp_space]
      split
      next hkernel => exact ⟨trivial, _, rfl, .kernel hrequest hkernel⟩
      next huser =>
        split
        next htaken =>
          obtain ⟨va, hva, hpage⟩ := List.any_eq_true.1 htaken
          obtain ⟨i, hi, rfl⟩ := List.mem_map.1 hva
          rw [← Std.ExtTreeMap.isSome_getElem?_eq_contains] at hpage
          exact ⟨trivial, _, rfl, .taken hrequest (Nat.not_lt.1 huser) (List.mem_range.1 hi) hpage⟩
        next hfree =>
          have hmissing (i : Nat) (hi : i < m.count) : m.addr i ∉ (s.space m.space).pages := fun hmem => by
            rw [Std.ExtTreeMap.mem_iff_contains] at hmem
            exact hfree (List.any_eq_true.2 ⟨m.addr i, Mapping.addr_mem_addrs hi, hmem⟩)
          have hnone : m.run.refusal? (s.space m.space).pages 0 m.count = none :=
            PageRun.refusal?_eq_none_iff.2 fun i _ hi =>
              ⟨Mapping.addr_lt (Nat.not_lt.1 huser) (by omega), hmissing i (by omega)⟩
          have hpages := mapPages_apply hid hrequest.start_aligned (by omega) fun i hi =>
            Mapping.position_lt hinside hi
          rw [hnone] at hpages
          refine (wp_self _).mono (fun a t ht => ?_) fun f t ht => ?_
          · cases hpages.symm.trans ht
            exact ⟨rfl, hrequest, Nat.not_lt.1 huser, Mapping.registers hid fun i hi =>
              Std.ExtTreeMap.getElem?_eq_none (hmissing i hi)⟩
          · cases hpages.symm.trans ht

end Paging

namespace System

/-- A mapping is made as a whole or not at all. If it is refused, the system is what it was, and the error says which
request was refused: one that makes no sense, else one that reaches the kernel half, else one for pages of which one is
there already. If it is made, its pages are described and its region is recorded, and the windows of its pages are
exactly over the bytes of the file that were asked for, as far as there are any. -/
theorem maps_all_or_nothing {start : VirtAddr} {length offset : Nat} {writable : Bool} {file : FileId} {m : Mapping}
    (hid : id ∈ s.spaces) (hsize : (s.file file).size < 2 ^ 63)
    (hm : m = .ofRequest id start length writable file offset (s.file file).size) :
    (∀ f t, mmap id start length writable file offset s = .error f t →
        t = s ∧ ∃ e, f = .error e ∧ m.Refused s length e) ∧
      ∀ a t, mmap id start length writable file offset s = .ok a t →
        a = start ∧ m.IsRequest length (s.file file).size ∧ m.start.toNat + m.count * pageSize ≤ kernelBase ∧
          m.Registers s t ∧ m.Tiles := by
  subst hm
  have hmmap := wp_mmap (m := .ofRequest id start length writable file offset (s.file file).size) hid rfl hsize
  refine ⟨fun f t h => hmmap.of_error h, fun a t h => ?_⟩
  obtain ⟨rfl, hrequest, hlimit, hregisters⟩ := hmmap.of_ok h
  exact ⟨rfl, hrequest, hlimit, hregisters, Mapping.tiles _⟩

/-- A small system with an address space and a file of more than one page. -/
def withPagesOfFile : System := (small { data := List.replicate 5000 7 }).after [.create]

/-- The whole file is mapped, the second page for a part only, and no page of it can be mapped again. -/
theorem exists_maps_all_or_nothing : ∃ (s t : System) (m : Mapping), s.Reachable ∧
    mmap 0 ⟨0x10000⟩ 9000 true 0 0 s = .ok ⟨0x10000⟩ t ∧ m.Registers s t ∧ m.Tiles ∧ m.count = 2 ∧
      (m.window 1).readBytes = 904 ∧ mmap 0 ⟨0x11000⟩ 1 true 0 0 t = .error (.error .fileExist) t := by
  have hid : 0 ∈ withPagesOfFile.spaces := by decide +kernel
  have hsize : (withPagesOfFile.file 0).size = 5000 := by decide +kernel
  obtain ⟨t, hok⟩ : ∃ t, mmap 0 ⟨0x10000⟩ 9000 true 0 0 withPagesOfFile = .ok ⟨0x10000⟩ t :=
    exists_of_result (by decide +kernel)
  have ht : t = outcomeOf (mmap 0 ⟨0x10000⟩ 9000 true 0 0) withPagesOfFile := by rw [outcomeOf, hok]
  obtain ⟨u, hrefused⟩ : ∃ u, mmap 0 ⟨0x11000⟩ 1 true 0 0 t = .error (.error .fileExist) u := by
    rw [ht]
    exact exists_of_errno (by decide +kernel)
  have hid' : 0 ∈ t.spaces := by
    rw [ht]
    decide +kernel
  have hsize' : (t.file 0).size = 5000 := by
    rw [ht]
    decide +kernel
  obtain ⟨-, -, -, hregisters, htiles⟩ := (maps_all_or_nothing hid (by rw [hsize]; decide) rfl).2 _ _ hok
  obtain ⟨rfl, -⟩ := (maps_all_or_nothing hid' (by rw [hsize']; decide) rfl).1 _ _ hrefused
  refine ⟨_, _, _, (Reachable.initial (initial_small _)).after (by decide +kernel), hok, hregisters, htiles, ?_, ?_,
    hrefused⟩
  · rw [hsize]
    decide
  · rw [hsize]
    decide

end System

end DemandPaging
