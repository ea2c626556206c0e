import DemandPaging.Machine
import DemandPaging.Proofs.Calm
import DemandPaging.Proofs.ImportedPages
import DemandPaging.Proofs.Reachability

/-!
Machines with several pagers. Each pager and the address spaces that belong to it are a system of their own: a call on
one of them is a call on this system, and to the systems of the other pagers nothing happens but that files change and
numbers of address spaces are used up.
-/

namespace DemandPaging

namespace Machine

variable {m n : Machine} {k j : Nat} {p q : Pager} {c : Call} {id : SpaceId}

/-- The system of the pager `p` with number `k`: its address spaces, and all files. -/
def part (m : Machine) (k : Nat) (p : Pager) : System where
  toWorld := { m.toWorld with spaces := m.spaces.filter fun id _ => m.homes[id]? = some k }
  pager := p

/-- There are no address spaces yet, and no pagers. -/
structure Initial (m : Machine) : Prop where
  pagers : m.pagers = #[]
  homes : m.homes = #[]
  spaces : m.spaces = ∅
  next : m.nextSpace = 0
  retired : m.retired = #[]

/-- Something changes that is not the paging system's: a file, or the requests that a disk or a page table will
refuse. -/
inductive Device (m : Machine) : Machine → Prop
  | files (f : FileId) (file : File) : Device m (m.setFile f file)
  | tables {id : SpaceId} (hlive : m.hasSpace id = true) (refused : List VirtAddr)
    (hmappable : ∀ va ∈ refused, (m.space id).table.entries[va]? = none) :
    Device m (m.setTable id { (m.space id).table with refuseMap := refused })
  | faults (k : Nat) (faults : Faults) : Device m (m.setDiskFaults k faults)

/-- The machines that runs lead to in which the tables of new spaces are empty. -/
inductive Reachable : Machine → Prop
  | initial {m : Machine} (h : m.Initial) : Reachable m
  | pager {m n : Machine} (h : Reachable m) {c : PagerConfig} (hadd : m.addPager c = .ok n) : Reachable n
  | call {m : Machine} (h : Reachable m) {c : Call} (htable : ∀ t ∈ c.table?, t.Willing ∧ t.entries = ∅) (k : Nat) :
    Reachable (m.answer c k).2
  | device {m n : Machine} (h : Reachable m) (hn : m.Device n) : Reachable n

/-- Each pager and its address spaces are a sound system. -/
structure Sound (m : Machine) : Prop where
  size : m.homes.size = m.nextSpace
  home : ∀ id ∈ m.spaces, ∃ k, m.homes[id]? = some k ∧ k < m.pagers.size
  part : ∀ k p, m.pagers[k]? = some p → (m.part k p).WellFormed ∧ (m.part k p).view.Sound
  retired : ∀ t ∈ m.retired, t.entries = ∅

/-! ### Parts -/

theorem spaces_part (m : Machine) (k : Nat) (p : Pager) (id : SpaceId) :
    (m.part k p).spaces[id]? = if m.homes[id]? = some k then m.spaces[id]? else none := by
  rw [part, Std.ExtTreeMap.getElem?_filter']
  split
  next hhome =>
    simp only [hhome, decide_true]
    cases m.spaces[id]? with
    | none => rfl
    | some sp => rfl
  next hhome => simp [hhome]

theorem space_part (hhome : m.homes[id]? = some k) : (m.part k p).space id = m.space id := by
  rw [World.space, spaces_part, if_pos hhome]
  rfl

theorem mem_spaces_part : id ∈ (m.part k p).spaces ↔ m.homes[id]? = some k ∧ id ∈ m.spaces := by
  rw [Std.ExtTreeMap.mem_iff_isSome_getElem?, Std.ExtTreeMap.mem_iff_isSome_getElem?, spaces_part]
  split
  next hhome => simp [hhome]
  next hhome => simp [hhome]

/-- The address space belongs to the pager `k`, or is yet to be created. -/
def Houses (m : Machine) (k : Nat) (id : SpaceId) : Prop := ∀ home ∈ m.homes[id]?, home = k

theorem houses_of_home (hhome : m.homes[id]? = some k) : m.Houses k id := fun _ h =>
  (Option.some.inj (hhome.symm.trans h)).symm

theorem Sound.homes_eq_none (h : m.Sound) (hid : m.nextSpace ≤ id) : m.homes[id]? = none :=
  Array.getElem?_eq_none (h.size ▸ hid)

theorem Sound.home_of_live (h : m.Sound) (hlive : id ∈ m.spaces) : m.homes[id]? = some (m.homeOf id) := by
  obtain ⟨k, hhome, _⟩ := h.home id hlive
  rw [homeOf, hhome, Option.getD_some]

/-- The system of a pager is the machine as this pager may see it, but for spaces of other pagers. -/
theorem Sound.agreesOn_part (h : m.Sound) (hp : m.pagers[k]? = some p) :
    System.AgreesOn (m.Houses k) { toWorld := m.toWorld, pager := p } (m.part k p) := by
  refine .intro _ (fun id hid => ?_) (fun pa o ho => ?_) fun id hid home hhome => ?_
  · change (m.part k p).spaces[id]? = m.spaces[id]?
    rw [spaces_part]
    split
    · rfl
    next hne =>
      symm
      apply Std.ExtTreeMap.getElem?_eq_none
      intro hlive
      obtain ⟨j, hhome, _⟩ := h.home id hlive
      exact hne (hid j hhome ▸ hhome)
  · obtain ⟨page, hpage, _⟩ := (h.part k p hp).2.resident.1 ho
    exact houses_of_home (mem_spaces_part.1 ((h.part k p hp).2.page hpage).1).1
  · rw [h.homes_eq_none hid] at hhome
    cases hhome

/-! ### Calls -/

/-- What homes there are after an action on the pager `k`. -/
theorem homes_resume (k : Nat) (s : System) (id : SpaceId) : (m.resume k s).homes[id]? =
    if id < m.homes.size then m.homes[id]?
    else if id < m.homes.size + (s.nextSpace - m.nextSpace) then some k else none := by
  rw [resume, Array.getElem?_append]
  split
  · rfl
  next hge =>
    rw [Array.getElem?_replicate]
    exact if_congr (Nat.sub_lt_iff_lt_add' (Nat.le_of_not_lt hge)) rfl rfl

variable {s t : System}

theorem homes_resume_of_home {home : Nat} (hhome : m.homes[id]? = some home) :
    (m.resume k s).homes[id]? = some home := by
  rw [homes_resume, if_pos (Array.getElem?_eq_some_iff.1 hhome).1, hhome]

theorem Sound.homes_resume_of_none (h : m.Sound) (hnext : m.nextSpace ≤ s.nextSpace) (hhome : m.homes[id]? = none) :
    (m.resume k s).homes[id]? = if id < s.nextSpace then some k else none := by
  have hle : m.homes.size ≤ id := Array.getElem?_eq_none_iff.1 hhome
  have hsize : m.homes.size + (s.nextSpace - m.nextSpace) = s.nextSpace := by
    rw [h.size]
    exact Nat.add_sub_cancel' hnext
  rw [homes_resume, if_neg (Nat.not_lt.2 hle), hsize]

/-- What was done to the system of a pager was done to the machine. -/
theorem Sound.part_resume (h : m.Sound) (hp : m.pagers[k]? = some p)
    (hfollows : System.Follows (m.Houses k) { toWorld := m.toWorld, pager := p } (m.part k p) s t)
    (hv : t.view.Sound) : (m.resume k s).part k s.pager = t := by
  obtain ⟨hagrees, houtside, hnext⟩ := hfollows
  cases hagrees with
  | intro spaces hspaces =>
    have hmap : ((m.resume k s).part k s.pager).spaces = spaces := by
      refine Std.ExtTreeMap.ext_getElem? fun id => ?_
      rw [spaces_part]
      cases hhome : m.homes[id]? with
      | some home =>
        rw [homes_resume_of_home hhome]
        split
        next heq =>
          obtain rfl := Option.some.inj heq
          exact (hspaces id (houses_of_home hhome)).symm
        next hne =>
          have hout : ¬ m.Houses k id := fun hin => hne (congrArg some (hin home hhome))
          rw [(houtside id hout).2, spaces_part, if_neg (hhome ▸ hne)]
      | none =>
        have hin : m.Houses k id := fun _ hsome => by
          rw [hhome] at hsome
          cases hsome
        rw [h.homes_resume_of_none hnext hhome]
        split
        · split
          · exact (hspaces id hin).symm
          next hne => exact absurd rfl hne
        next hge =>
          symm
          apply Std.ExtTreeMap.getElem?_eq_none
          intro hlive
          exact hge (hv.fresh hlive)
    exact congrArg (fun spaces => ({ s with spaces := spaces } : System)) hmap

/-- To the systems of other pagers nothing happened but that the world around them changed. -/
theorem Sound.part_resume_of_ne (h : m.Sound) (hne : j ≠ k)
    (hfollows : System.Follows (m.Houses k) { toWorld := m.toWorld, pager := p } (m.part k p) s t) :
    (m.resume k s).part j q = { m.part j q with
      nextSpace := s.nextSpace, retired := s.retired, files := s.files, log := s.log } := by
  have hmap : ((m.resume k s).part j q).spaces = (m.part j q).spaces := by
    refine Std.ExtTreeMap.ext_getElem? fun id => ?_
    rw [spaces_part, spaces_part]
    cases hhome : m.homes[id]? with
    | some home =>
      rw [homes_resume_of_home hhome]
      split
      next heq =>
        obtain rfl := Option.some.inj heq
        have hout : ¬ m.Houses k id := fun hin => hne (hin home hhome)
        exact (hfollows.outside id hout).1
      · rfl
    | none =>
      have hother : (if id < s.nextSpace then some k else none) ≠ some j := by
        split
        · exact fun heq => hne (Option.some.inj heq).symm
        · exact nofun
      rw [h.homes_resume_of_none hfollows.next_le hhome, if_neg hother, if_neg nofun]
  exact congrArg (fun spaces => ({ s with spaces := spaces, pager := q } : System)) hmap

/-- A system stays sound while files change, more address spaces are created elsewhere, and more tables retire. -/
theorem sound_of_world {s : System} (hs : s.WellFormed) (hv : s.view.Sound) {next : SpaceId}
    {retired : Array PageTable} (hnext : s.nextSpace ≤ next) (hretired : ∀ t ∈ retired, t.entries = ∅)
    (files : Array File) (log : Array Event) :
    let t : System := { s with nextSpace := next, retired := retired, files := files, log := log }
    t.WellFormed ∧ t.view.Sound :=
  ⟨⟨hs.pool, hs.swap, hs.tables, hretired⟩, hv.page, hv.region, fun hlive => Nat.lt_of_lt_of_le (hv.fresh hlive) hnext,
    hv.resident, hv.entry, hv.mappable, hv.owner, hv.slots⟩

/-- A machine stays sound when something sound is done to the system of one pager. -/
theorem Sound.resume (h : m.Sound) (hp : m.pagers[k]? = some p)
    (hfollows : System.Follows (m.Houses k) { toWorld := m.toWorld, pager := p } (m.part k p) s t)
    (ht : t.WellFormed) (hv : t.view.Sound) : (m.resume k s).Sound := by
  have hpart := h.part_resume hp hfollows hv
  have hnext := hfollows.next_le
  have hlt : k < m.pagers.size := (Array.getElem?_eq_some_iff.1 hp).1
  have hretired : ∀ table ∈ s.retired, table.entries = ∅ := by
    have hretired' := ht.retired
    rw [← hpart] at hretired'
    exact hretired'
  refine ⟨?_, fun id hlive => ?_, fun j q hq => ?_, hretired⟩
  · rw [Machine.resume, Array.size_append, Array.size_replicate, h.size]
    exact Nat.add_sub_cancel' hnext
  · have hsize : (m.resume k s).pagers.size = m.pagers.size := Array.size_setIfInBounds ..
    rw [hsize]
    cases hhome : m.homes[id]? with
    | some home =>
      refine ⟨home, homes_resume_of_home hhome, ?_⟩
      by_cases hin : m.Houses k id
      · exact hin home hhome ▸ hlt
      · have hold : id ∈ m.spaces := by
          have hlive' : id ∈ s.spaces := hlive
          rw [Std.ExtTreeMap.mem_iff_isSome_getElem?, (hfollows.outside id hin).1] at hlive'
          exact Std.ExtTreeMap.mem_iff_isSome_getElem?.2 hlive'
        obtain ⟨home', hhome', hlt'⟩ := h.home id hold
        exact Option.some.inj (hhome'.symm.trans hhome) ▸ hlt'
    | none =>
      refine ⟨k, ?_, hlt⟩
      have hin : m.Houses k id := fun _ hsome => by
        rw [hhome] at hsome
        cases hsome
      have hlive' : id ∈ t.spaces := by
        rw [Std.ExtTreeMap.mem_iff_isSome_getElem?, hfollows.agrees.spaces_eq hin]
        exact Std.ExtTreeMap.mem_iff_isSome_getElem?.1 hlive
      have hfresh : id < t.nextSpace := hv.fresh hlive'
      rw [h.homes_resume_of_none hnext hhome, if_pos (hfollows.agrees.nextSpace_eq ▸ hfresh)]
  · by_cases hjk : j = k
    · subst hjk
      obtain rfl : q = s.pager := by
        have hq' : (m.pagers.setIfInBounds j s.pager)[j]? = some q := hq
        rw [Array.getElem?_setIfInBounds_self_of_lt hlt] at hq'
        exact (Option.some.inj hq').symm
      rw [hpart]
      exact ⟨ht, hv⟩
    · have hq' : m.pagers[j]? = some q := by
        rw [← hq]
        exact (Array.getElem?_setIfInBounds_ne (Ne.symm hjk)).symm
      obtain ⟨hs', hv'⟩ := h.part j q hq'
      rw [h.part_resume_of_ne hjk hfollows]
      exact sound_of_world hs' hv' hnext hretired s.files s.log

end Machine

/-- Calls that look at a second address space copy it. -/
theorem Call.exists_eq_duplicate (c : Call) {src : SpaceId} (hsrc : src ∈ c.source?) : ∃ dst, c = .duplicate dst src := by
  cases c with
  | duplicate dst src' => exact ⟨dst, congrArg (Call.duplicate dst) (Option.some.inj hsrc)⟩
  | _ => cases hsrc

/-- How a call ends, as an outcome. -/
def Outcome.of : Except Failure Answer → Outcome
  | .ok a => .answer a
  | .error f => .failed f

namespace Machine

variable {m n : Machine} {k j : Nat} {p q : Pager} {c : Call} {id : SpaceId} {s t : System}

/-- What was done on the way to `s` in the world of the pager `p` of `dst` could have been done without the address spaces
of other pagers. -/
def Imports (m : Machine) (dst : SpaceId) (p : Pager) (s : System) : Prop :=
  System.Parallels (m.Houses (m.homeOf dst)) dst { toWorld := m.toWorld, pager := p } (m.part (m.homeOf dst) p) s

/-- The call was not made, or it was made on the system of a pager, or it copied a space of another one. -/
inductive Answers (m : Machine) (c : Call) : Outcome → Machine → Prop
  | refused {o : Outcome} (ho : ∀ a, o ≠ .answer a) : Answers m c o m
  | made {j : Nat} {p : Pager} {s t : System} {r : Except Failure Answer} (hp : m.pagers[j]? = some p)
    (hj : ∀ id ∈ c.space?, m.homeOf id = j) (hc : c.Admissible (m.part j p)) (hrun : c.outcome (m.part j p) = (r, t))
    (hfollows : System.Follows (m.Houses j) { toWorld := m.toWorld, pager := p } (m.part j p) s t) :
    Answers m c (Outcome.of r) (m.resume j s)
  | imported {dst src : SpaceId} {p : Pager} {s : System} {o : Outcome} (hc : c = .duplicate dst src)
    (hhome : m.homeOf src ≠ m.homeOf dst) (hp : m.pagers[m.homeOf dst]? = some p) (himports : m.Imports dst p s) :
    Answers m c o (m.resume (m.homeOf dst) s)

/-- The pages of a space fit where they are, whichever pager it belongs to. -/
theorem Sound.fits (h : m.Sound) (hlive : id ∈ m.spaces) {va : VirtAddr} {page : PageEntry}
    (hpage : (m.space id).pages[va]? = some page) : page.Fits va := by
  obtain ⟨k, hhome, hlt⟩ := h.home id hlive
  obtain ⟨_, hv⟩ := h.part k _ (Array.getElem?_eq_getElem hlt)
  rw [← space_part hhome] at hpage
  exact (hv.page (p := ⟨id, va⟩) hpage).2

/-- A space of another pager is copied. -/
theorem Sound.imports (h : m.Sound) {dst src : SpaceId} (hdst : dst ∈ m.spaces) (hsrc : src ∈ m.spaces)
    (hhome : m.homeOf src ≠ m.homeOf dst) (hp : m.pagers[m.homeOf dst]? = some p) :
    Paging.wp (Call.duplicate dst src).run { toWorld := m.toWorld, pager := p } (fun _ => m.Imports dst p)
      fun _ => m.Imports dst p := by
  obtain ⟨hs, hv⟩ := h.part _ _ hp
  have hharbors : (m.part (m.homeOf dst) p).Harbors dst := ⟨hs, hv, mem_spaces_part.2 ⟨h.home_of_live hdst, hdst⟩⟩
  have houtside : ¬ m.Houses (m.homeOf dst) src := fun hin => hhome (hin _ (h.home_of_live hsrc))
  exact (Paging.wp_bind ..).2 (Paging.wp_duplicate_of_foreign (h.agreesOn_part hp) hharbors
    (houses_of_home (h.home_of_live hdst)) houtside fun va page hpage => h.fits hsrc hpage)

theorem Sound.answers (h : m.Sound) (htable : ∀ t ∈ c.table?, t.Willing ∧ t.entries = ∅) (k : Nat) :
    m.Answers c (m.answer c k).1 (m.answer c k).2 := by
  unfold answer
  split
  · exact .refused nofun
  next hspace =>
  split
  · exact .refused nofun
  next hsource =>
  rw [Bool.not_eq_true', Bool.not_eq_false, Option.all_eq_true] at hspace hsource
  generalize hj : (c.space?.map m.homeOf).getD k = j
  have hhome (id : SpaceId) (hid : id ∈ c.space?) : m.homeOf id = j := by
    rw [← hj, Option.mem_def.1 hid]
    rfl
  have hlive (id : SpaceId) (hid : id ∈ c.space?) : id ∈ m.spaces := hspace id hid
  have hsource' (src : SpaceId) (hsrc : src ∈ c.source?) : src ∈ m.spaces ∧ c.space? ≠ some src := by
    obtain ⟨hmem, hne⟩ := Bool.and_eq_true_iff.1 (hsource src hsrc)
    exact ⟨hmem, bne_iff_ne.1 hne⟩
  have hpart {id : SpaceId} (hid : id ∈ m.spaces) (hj : m.homeOf id = j) : m.homes[id]? = some j :=
    hj ▸ h.home_of_live hid
  unfold on
  cases hp : m.pagers[j]? with
  | none => exact .refused nofun
  | some p =>
    by_cases hforeign : ∃ src ∈ c.source?, m.homeOf src ≠ j
    · obtain ⟨src, hsrc, hne⟩ := hforeign
      obtain ⟨dst, rfl⟩ := c.exists_eq_duplicate hsrc
      obtain rfl : m.homeOf dst = j := hhome dst rfl
      have himports := h.imports (hlive dst rfl) (hsource' src hsrc).1 hne hp
      dsimp only
      unfold Paging.wp at himports
      generalize (Call.duplicate dst src).run { toWorld := m.toWorld, pager := p } = r at himports ⊢
      cases r with
      | ok a s => exact .imported rfl hne hp himports
      | error f s => exact .imported rfl hne hp himports
    have hsame (src : SpaceId) (hsrc : src ∈ c.source?) : m.homeOf src = j :=
      by_contra fun hne => hforeign ⟨src, hsrc, hne⟩
    have hc' : c.Admissible (m.part j p) :=
      ⟨fun id hid => mem_spaces_part.2 ⟨hpart (hlive id hid) (hhome id hid), hlive id hid⟩,
        fun src hsrc => ⟨mem_spaces_part.2 ⟨hpart (hsource' src hsrc).1 (hsame src hsrc), (hsource' src hsrc).1⟩,
          (hsource' src hsrc).2⟩, htable⟩
    have halike := Paging.local_run (I := m.Houses j)
      (fun id hid => houses_of_home (hpart (hlive id hid) (hhome id hid)))
      (fun src hsrc => houses_of_home (hpart (hsource' src hsrc).1 (hsame src hsrc))) _ _ (h.agreesOn_part hp)
    dsimp only
    generalize hrun : c.run { toWorld := m.toWorld, pager := p } = r, hrun' : c.run (m.part j p) = r' at halike
    cases halike with
    | @ok a s t hfollows =>
      have houtcome : c.outcome (m.part j p) = (.ok a, t) := by rw [Call.outcome, hrun']
      exact .made hp hhome hc' houtcome hfollows
    | @error f s t hfollows =>
      have houtcome : c.outcome (m.part j p) = (.error f, t) := by rw [Call.outcome, hrun']
      exact .made hp hhome hc' houtcome hfollows

theorem Answers.sound (h : m.Sound) {o : Outcome} (hanswers : m.Answers c o n) : n.Sound := by
  cases hanswers with
  | refused _ => exact h
  | made hp _ hc hrun hfollows =>
    obtain ⟨hs, hv⟩ := h.part _ _ hp
    obtain ⟨ht, ds, htrace, _⟩ := System.exists_explains hs hv hc
    rw [hrun] at ht htrace
    exact h.resume hp hfollows ht (htrace.sound hv)
  | imported _ _ hp himports =>
    obtain ⟨t, hfollows, ht⟩ := himports
    exact h.resume hp hfollows ht.wellFormed ht.sound

/-! ### Runs -/

theorem Initial.sound (h : m.Initial) : m.Sound where
  size := by rw [h.homes, h.next]; rfl
  home id hlive := by
    rw [h.spaces] at hlive
    exact absurd hlive Std.ExtTreeMap.not_mem_empty
  part k p hp := by
    rw [h.pagers] at hp
    cases hp
  retired t ht := by
    rw [h.retired] at ht
    exact absurd ht (Array.not_mem_empty t)

theorem Sound.addPager (h : m.Sound) {c : PagerConfig} (hadd : m.addPager c = .ok n) : n.Sound := by
  unfold Machine.addPager at hadd
  cases hbuild : c.build with
  | error e =>
    rw [hbuild] at hadd
    cases hadd
  | ok built =>
    obtain ⟨p, events⟩ := built
    rw [hbuild] at hadd
    obtain rfl := Except.ok.inj hadd
    refine ⟨h.size, fun id hlive => ?_, fun k q hq => ?_, h.retired⟩
    · obtain ⟨k, hhome, hlt⟩ := h.home id hlive
      exact ⟨k, hhome, Nat.lt_of_lt_of_le hlt (by simp)⟩
    · have hq' : (m.pagers.push p)[k]? = some q := hq
      rw [Array.getElem?_push] at hq'
      split at hq'
      next hk =>
        obtain rfl := Option.some.inj hq'
        have hempty : (m.part k p).spaces = ∅ := by
          refine Std.ExtTreeMap.ext_getElem? fun id => ?_
          rw [Std.ExtTreeMap.getElem?_empty]
          apply Std.ExtTreeMap.getElem?_eq_none
          intro hlive
          obtain ⟨hhome, hlive⟩ := mem_spaces_part.1 hlive
          obtain ⟨j, hhome', hlt⟩ := h.home id hlive
          obtain rfl := Option.some.inj (hhome.symm.trans hhome')
          exact absurd hk (Nat.ne_of_lt hlt)
        have hinitial : ({ m.part k p with retired := #[] } : System).Initial := ⟨⟨c, events, hbuild⟩, hempty, rfl⟩
        exact sound_of_world hinitial.wellFormed hinitial.sound (Nat.le_refl _) h.retired m.files _
      next =>
        obtain ⟨hs, hv⟩ := h.part k q hq'
        exact sound_of_world hs hv (Nat.le_refl _) h.retired m.files _

theorem part_setTable (table : PageTable) : (m.setTable id table).part k p =
    { m.part k p with spaces := (m.part k p).spaces.modify id fun sp => { sp with table := table } } := by
  have hmap : ((m.setTable id table).part k p).spaces =
      (m.part k p).spaces.modify id fun sp => { sp with table := table } := by
    refine Std.ExtTreeMap.ext_getElem? fun id' => ?_
    have hspaces : (m.setTable id table).spaces = m.spaces.modify id fun sp => { sp with table := table } := rfl
    have hhomes : (m.setTable id table).homes = m.homes := rfl
    rw [spaces_part, Std.ExtTreeMap.getElem?_modify, spaces_part, spaces_part, hspaces, hhomes,
      Std.ExtTreeMap.getElem?_modify]
    by_cases hid : compare id id' = .eq
    · obtain rfl : id = id' := Std.LawfulEqCmp.eq_of_compare hid
      rw [if_pos hid, if_pos hid]
      split <;> rfl
    · rw [if_neg hid, if_neg hid]
  exact congrArg (fun spaces => ({ m.part k p with spaces := spaces } : System)) hmap

/-- A page table that refuses other requests from now on is one of the system of its pager. -/
theorem Sound.setTable (h : m.Sound) (refused : List VirtAddr)
    (hmappable : ∀ va ∈ refused, (m.space id).table.entries[va]? = none) (hp : m.pagers[k]? = some p) :
    ((m.setTable id { (m.space id).table with refuseMap := refused }).part k p).WellFormed ∧
      ((m.setTable id { (m.space id).table with refuseMap := refused }).part k p).view.Sound := by
  obtain ⟨hs, hv⟩ := h.part k p hp
  rw [part_setTable]
  by_cases hlive : id ∈ (m.part k p).spaces
  · have hspace : (m.part k p).space id = m.space id := space_part (mem_spaces_part.1 hlive).1
    have hdevice : (m.part k p).Device { m.part k p with spaces := (m.part k p).spaces.modify id fun sp =>
        { sp with table := { sp.table with refuseMap := refused } } } :=
      .tables hlive refused fun va hva => by
        change ((m.part k p).space id).table.entries[va]? = none
        rw [hspace]
        exact hmappable va hva
    rw [System.modify_spaces_congr
      (g := fun sp => { sp with table := { sp.table with refuseMap := refused } }) (by rw [hspace])]
    exact ⟨hdevice.wellFormed hs, hdevice.sound hv⟩
  · rw [System.modify_spaces_of_not_mem hlive]
    exact ⟨hs, hv⟩

/-- What devices do, they do to the systems of the pagers. -/
theorem Device.sound (hn : m.Device n) (h : m.Sound) : n.Sound := by
  cases hn with
  | files f file =>
    refine ⟨h.size, h.home, fun k p hp => ?_, h.retired⟩
    obtain ⟨hs, hv⟩ := h.part k p hp
    exact sound_of_world hs hv (Nat.le_refl _) h.retired _ m.log
  | @tables id hlive refused hmappable =>
    exact ⟨h.size, fun id' hid' => h.home id' (Std.ExtTreeMap.mem_modify.1 hid'),
      fun k p hp => h.setTable refused hmappable hp, h.retired⟩
  | faults k faults =>
    have hpagers : (m.setDiskFaults k faults).pagers = m.pagers.modify k fun p =>
        { p with swap := { p.swap with disk := p.swap.disk.map fun d => { d with faults := faults } } } := rfl
    refine ⟨h.size, fun id hid => ?_, fun j q hq => ?_, h.retired⟩
    · rw [hpagers, Array.size_modify]
      exact h.home id hid
    · rw [hpagers, Array.getElem?_modify] at hq
      split at hq
      · obtain ⟨p, hp, rfl⟩ := Option.map_eq_some_iff.1 hq
        obtain ⟨hs, hv⟩ := h.part j p hp
        have hdevice : (m.part j p).Device _ := .faults faults
        exact ⟨hdevice.wellFormed hs, hdevice.sound hv⟩
      · exact h.part j q hq

theorem Reachable.sound (h : m.Reachable) : m.Sound := by
  induction h with
  | initial h => exact h.sound
  | pager _ hadd ih => exact ih.addPager hadd
  | call _ htable k ih => exact (ih.answers htable k).sound ih
  | device _ hn ih => exact hn.sound ih

end Machine

end DemandPaging
