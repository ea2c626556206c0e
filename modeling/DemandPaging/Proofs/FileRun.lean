import DemandPaging.Proofs.FileMapping

/-!
Runs in which a mapping is left alone. As long as nothing else maps its file and nothing but its end removes its pages,
a mapping behaves as the file does, and afterwards the file has what was stored.
-/

namespace DemandPaging

/-- The space into which the call copies, and the one that it copies. -/
def Call.copying? (s : System) : Call → Option (SpaceId × SpaceId)
  | fork id _ => some (s.nextSpace, id)
  | duplicate dst src => some (dst, src)
  | _ => none

namespace Mapping

/-- The call leaves the mapping alone: it neither ends it nor copies it, makes no other page of its file, removes none
of its pages, and declares what it writes to them. A copy of a page in a region over the file would be such a page. -/
def IsSparedBy (m : Mapping) (s : System) : Call → Prop
  | .drop id | .teardown id => id ≠ m.space
  | .fork id _ => id ≠ m.space ∧ ∀ va r, s.region? ⟨id, va⟩ = some r → r.file = m.file →
      ∀ a, r.Contains a → s.page? ⟨id, a⟩ = none
  | .duplicate dst src => src ≠ m.space ∧
      ∀ p r, p.space = dst ∨ p.space = src → s.region? p = some r → r.file = m.file →
        p = m.origin ∨ ∀ a, r.Contains a → s.page? ⟨src, a⟩ = none
  | .addPage _ type _ _ source => ∀ f, type = .file → source = .file f → f.file ≠ m.file
  | .mmap _ _ _ _ file _ => file ≠ m.file
  | .removePage id va => ¬ m.IsPlace ⟨id, va.pageDown⟩
  | .munmap id va => ∀ r, s.region? ⟨id, va⟩ = some r → ∀ a ∈ r.addrs, ¬ m.IsPlace ⟨id, a.pageDown⟩
  | .touch id va write value => m.IsPlace ⟨id, va.pageDown⟩ → value ≠ none → write = true
  | _ => True

variable {m : Mapping} {data : Bytes} {v : View} {s t : System} {c : Call} {r : Except Failure Answer} {ds : List Deed}

theorem Stands.isSome (hs : m.Stands data v) {p : PageId} (hp : m.IsPlace p) : (v.pages p).isSome := by
  obtain ⟨i, hi, rfl⟩ := hp
  exact hs.present i hi

/-- A call that leaves the mapping alone removes none of its pages. -/
theorem IsSparedBy.not_removes (hspared : m.IsSparedBy s c) (hv : s.view.Sound) (hs : m.Stands data s.view)
    (htrace : Trace s.view ds t.view) (h : c.Explains s r ds t) {p : PageId} (hp : m.IsPlace p) : .remove p ∉ ds := by
  obtain hremoves | hundoes := h.undoes
  · intro hmem
    have hallowed := h.allowed _ hmem
    have hspace := hp.space_eq
    have hfresh : p.space ≠ s.nextSpace := by
      obtain ⟨page, hpage⟩ := Option.isSome_iff_exists.1 (hs.isSome hp)
      exact Nat.ne_of_lt (hv.fresh (hv.page hpage).1)
    have hclears {id : SpaceId} (hd : (Deed.remove p).Clears id) : p.space = id := by
      obtain hd | ⟨va, hd⟩ := hd
      · cases hd
      · cases hd
        rfl
    cases c with
    | drop id =>
      obtain hd | hd := hallowed
      · exact hspared ((hclears hd).symm.trans hspace)
      · cases hd
    | teardown id => exact hspared ((hclears hallowed).symm.trans hspace)
    | fork id table =>
      obtain hd | (⟨va', r, hd⟩ | ⟨va, page, hd⟩) | hd | hd | hd := hallowed
      · cases hd
      · cases hd
      · cases hd
      · exact hfresh (hclears hd)
      · cases hd
      · cases hd
    | removePage id va => exact hspared (Deed.remove.inj hallowed ▸ hp)
    | munmap id va =>
      obtain hd | ⟨r, hr, a, ha, hd⟩ := hallowed
      · cases hd
      · exact hspared r hr a ha (Deed.remove.inj hd ▸ hp)
    | _ => exact hremoves
  · exact htrace.remove_notMem hundoes not_false (hs.isSome hp)

theorem IsSparedBy.aloneIn (hspared : m.IsSparedBy s c) (hv : s.view.Sound) :
    m.AloneIn (c.copying? s) s.view := by
  intro dst src p r hcopying hp hr hfile
  cases c with
  | fork id table =>
    obtain ⟨rfl, rfl⟩ := Prod.mk.inj (Option.some.inj hcopying)
    obtain hp | hp := hp
    · exact absurd (hv.fresh (hv.region hr)) (by rw [hp]; exact Nat.lt_irrefl _)
    · obtain ⟨space, va⟩ := p
      obtain rfl : space = id := hp
      exact .inr (hspared.2 va r hr hfile)
  | duplicate dst src =>
    obtain ⟨rfl, rfl⟩ := Prod.mk.inj (Option.some.inj hcopying)
    exact hspared.2 p r hp hr hfile
  | _ => cases hcopying

/-- Where nothing is copied, a page that is not read from the file may be described. -/
theorem permits_describe {p : PageId} {page : PageEntry} (h : ∀ f, page.kind.window? = some f → f.file ≠ m.file) :
    m.Permits none (.describe p page) :=
  ⟨h, fun _ hcopying => by cases hcopying⟩

theorem permits_of_clears {copying : Option (SpaceId × SpaceId)} {d : Deed} {id : SpaceId} (hid : id ≠ m.space)
    (hremove : ∀ p, d = .remove p → m.Permits copying d) (hd : d.Clears id) : m.Permits copying d := by
  obtain rfl | ⟨va, rfl⟩ := hd
  · exact hid
  · exact hremove _ rfl

theorem permits_of_stack {d : Deed} {p : PageId} (hremove : ∀ q, d = .remove q → m.Permits none d)
    (hd : d.IsOfStack p) : m.Permits none d := by
  obtain rfl | ⟨fresh, rfl⟩ | rfl := hd
  · exact permits_describe fun f hf => by cases hf
  · trivial
  · exact hremove _ rfl

theorem permits_of_access {d : Deed} {id : SpaceId} (hremove : ∀ q, d = .remove q → m.Permits none d)
    (hd : d.IsOfAccess id) : m.Permits none d := by
  obtain ⟨va, hd⟩ | ⟨va, write, start, bytes, rfl, hbytes⟩ := hd
  · exact permits_of_stack hremove hd
  · exact fun _ => hbytes

theorem permits_of_copy {d : Deed} {dst src : SpaceId} (hsrc : src ≠ m.space) (hne : dst ≠ src)
    (hd : d.IsOfCopy dst src) : m.Permits (some (dst, src)) d := by
  obtain ⟨va, r, rfl⟩ | ⟨va, page, rfl⟩ := hd
  · exact ⟨hsrc, rfl, hne⟩
  · exact ⟨hsrc, rfl, rfl, hne⟩

/-- A page that is added by a call that leaves the mapping alone is not read from its file. -/
theorem IsSparedBy.window_ne_of_addPage {id : SpaceId} {type : PageType} {va : VirtAddr} {writable : Bool}
    {source : Source} (hspared : m.IsSparedBy s (.addPage id type va writable source)) {q : Pending}
    (hq : Pending.of? type source = some q) {f : FileWindow} (hf : (PageKind.pending q).window? = some f) :
    f.file ≠ m.file := by
  cases type with
  | anon =>
    cases hq
    cases hf
  | file =>
    cases source with
    | zero => cases hq
    | file w =>
      cases hq
      cases hf
      exact hspared _ rfl rfl

/-- The region of a mapping that is left alone is not that of an unmapped one. -/
theorem IsSparedBy.origin_ne_of_munmap {id : SpaceId} {va : VirtAddr} (hspared : m.IsSparedBy s (.munmap id va))
    (hm : m.Fits data.length) (hs : m.Stands data s.view) : ⟨id, va⟩ ≠ m.origin := by
  intro e
  have hpos := Nat.pos_of_ne_zero hm.count_ne
  refine hspared m.region (e ▸ hs.region) _ (addr_mem_addrs hpos) ?_
  rw [VirtAddr.pageDown_of_aligned (m.offset_addr hm.start_aligned 0), show id = m.space from congrArg PageId.space e]
  exact ⟨0, hpos, rfl⟩

/-- A touch of a page of a mapping that is left alone declares what it writes. -/
theorem IsSparedBy.permits_of_touch {id : SpaceId} {va : VirtAddr} {write : Bool} {value : Option UInt8}
    (hspared : m.IsSparedBy s (.touch id va write value)) {start : Nat} {bytes : Bytes}
    (hstores : storesOf ds <+: (Call.touch id va write value).stores)
    (hd : .use ⟨id, va.pageDown⟩ write start bytes ∈ ds) :
    m.Permits none (.use ⟨id, va.pageDown⟩ write start bytes) := by
  intro hplace
  cases value with
  | some b => exact .inr (hspared hplace (Option.some_ne_none b))
  | none =>
    have hnone := List.filterMap_eq_nil_iff.1 (List.prefix_nil.1 hstores) _ hd
    by_cases hbytes : bytes = []
    · exact .inl hbytes
    · simp [Deed.store?, hbytes] at hnone

/-- A call that leaves the mapping alone leaves it in place. -/
theorem IsSparedBy.permits (hspared : m.IsSparedBy s c) (hc : c.Admissible s) (hv : s.view.Sound)
    (hm : m.Fits data.length) (hs : m.Stands data s.view) (htrace : Trace s.view ds t.view) (h : c.Explains s r ds t) :
    ∀ d ∈ ds, m.Permits (c.copying? s) d := by
  intro d hd
  have hallowed := h.allowed d hd
  have hremove (p : PageId) (hp : d = .remove p) : m.Permits (c.copying? s) d := by
    subst hp
    exact fun hplace => hspared.not_removes hv hs htrace h hplace hd
  have horigin := hs.isSome (isPlace_origin hm)
  have hfresh : s.nextSpace ≠ m.space := by
    obtain ⟨page, hpage⟩ := Option.isSome_iff_exists.1 horigin
    exact Ne.symm (Nat.ne_of_lt (hv.fresh (hv.page hpage).1))
  cases c with
  | create => cases hallowed; trivial
  | drop id =>
    obtain hd | rfl := hallowed
    · exact permits_of_clears hspared hremove hd
    · exact hspared
  | teardown id => exact permits_of_clears hspared hremove hallowed
  | fork id table =>
    obtain rfl | hd | hd | rfl | rfl := hallowed
    · trivial
    · exact permits_of_copy hspared.1 (Ne.symm (Nat.ne_of_lt (hv.fresh (hc.space _ rfl)))) hd
    · exact permits_of_clears hfresh hremove hd
    · exact hfresh
    · trivial
  | duplicate dst src => exact permits_of_copy hspared.1 (fun e => (hc.source _ rfl).2 (congrArg some e)) hallowed
  | addPage id type va writable source =>
    obtain ⟨q, hq, rfl⟩ := hallowed
    exact permits_describe fun f hf => hspared.window_ne_of_addPage hq hf
  | removePage id va => exact hremove _ hallowed
  | claim id va => obtain ⟨fresh, rfl⟩ := hallowed; trivial
  | mmap id start length writable file offset =>
    obtain ⟨i, rfl⟩ | ⟨rfl, hfree⟩ := hallowed
    · exact permits_describe fun f hf => by cases hf; exact hspared
    · refine ⟨fun e => ?_, rfl⟩
      rw [← e, show s.view.pages _ = none from hfree] at horigin
      cases horigin
  | munmap id va =>
    obtain rfl | ⟨r, _, a, _, hd⟩ := hallowed
    · exact hspared.origin_ne_of_munmap hm hs
    · exact hremove _ hd
  | mapSegment id file offset start readBytes zeroBytes writable =>
    obtain ⟨va, source, rfl, _⟩ | ⟨va, hd⟩ := hallowed
    · exact permits_describe fun f hf => by cases hf
    · exact hremove _ hd
  | mapStack id => exact permits_of_stack hremove hallowed
  | touch id va write value =>
    obtain ⟨fresh, rfl⟩ | ⟨start, bytes, rfl⟩ := hallowed
    · trivial
    · exact hspared.permits_of_touch h.stores hd
  | fault id f => exact permits_of_access hremove hallowed
  | copyFromUser id va count => exact permits_of_access hremove hallowed
  | copyToUser id va bytes => exact permits_of_access hremove hallowed
  | load id va sp => exact permits_of_access hremove hallowed
  | store id va sp b => exact permits_of_access hremove hallowed
  | loadBytes id va count sp => exact permits_of_access hremove hallowed
  | storeBytes id va bytes sp => exact permits_of_access hremove hallowed
  | lend => cases hallowed; trivial
  | giveBack n => cases hallowed; trivial

/-- A run in which the mapping is left alone and requests on its file do not fail, and what was stored on the way. -/
inductive Run (m : Mapping) (s : System) : List Store → System → Prop
  | start : m.Run s [] s
  | call {t u : System} {sts : List Store} {c : Call} {r : Except Failure Answer} {ds : List Deed} (h : m.Run s sts t)
    (hc : c.Admissible t) (hspared : m.IsSparedBy t c) (hrun : c.outcome t = (r, u))
    (htrace : Trace t.view ds u.view) (hexplains : c.Explains t r ds u) : m.Run s (sts ++ storesOf ds) u
  | device {t u : System} {sts : List Store} (h : m.Run s sts t) (ht : t.Device u)
    (hdata : (u.file m.file).data = (t.file m.file).data) (hserves : (u.file m.file).Serves) : m.Run s sts u

namespace Run

variable {u : System} {sts : List Store}

/-- A mapping that is left alone stays in place, and has what was stored last. -/
theorem stands (h : m.Run s sts t) (hs : s.WellFormed) (hv : s.view.Sound) (hm : m.Fits data.length)
    (hstands : m.Stands data s.view) : t.WellFormed ∧ t.view.Sound ∧ m.Stands (m.image data sts) t.view := by
  induction h with
  | start => exact ⟨hs, hv, by rwa [image_nil]⟩
  | @call t u sts c r ds h hc hspared hrun htrace hexplains ih =>
    obtain ⟨ht, hv', hstands'⟩ := ih
    have hm' : m.Fits (m.image data sts).length := by rwa [length_image]
    have hu := (System.exists_explains ht hv' hc).1
    rw [hrun] at hu
    refine ⟨hu, htrace.sound hv', ?_⟩
    rw [image_append]
    exact htrace.stands hv' hm' hstands' (hspared.aloneIn hv') (hspared.permits hc hv' hm' hstands' htrace hexplains)
  | @device t u sts h ht hdata hserves ih =>
    obtain ⟨hwellFormed, hv', hstands'⟩ := ih
    have hm' : m.Fits (m.image data sts).length := by rwa [length_image]
    refine ⟨ht.wellFormed hwellFormed, ht.sound hv', ?_, ?_, ?_⟩
    · obtain ⟨files, refuses, hview, _⟩ := ht.view_eq
      rw [hview]
      have hfile : (files m.file).getD {} = u.file m.file := by rw [← System.file_view, hview]; rfl
      refine (hstands'.shows.withFiles hm' (hfile ▸ hserves) ?_).of_same rfl rfl rfl rfl
      rw [hfile, hdata]
      rfl
    · obtain ⟨files, refuses, hview, _⟩ := ht.view_eq
      rw [hview]
      exact hstands'.present
    · obtain ⟨files, refuses, hview, _⟩ := ht.view_eq
      rw [hview]
      exact hstands'.region

/-- A run goes on by any call that leaves the mapping alone. -/
theorem exists_call (h : m.Run s sts t) (ht : t.Reachable) (hc : c.Admissible t) (hspared : m.IsSparedBy t c) :
    ∃ ds, c.Explains t (c.outcome t).1 ds (c.outcome t).2 ∧ m.Run s (sts ++ storesOf ds) (c.outcome t).2 := by
  obtain ⟨_, ds, htrace, hexplains⟩ := System.exists_explains ht.wellFormed ht.sound hc
  exact ⟨ds, hexplains, h.call hc hspared rfl htrace hexplains⟩

/-- A call that succeeds stores what it is meant to. -/
theorem call_ok (h : m.Run s sts t) (ht : t.Reachable) (hc : c.Admissible t) (hspared : m.IsSparedBy t c)
    (hok : (c.outcome t).1.toBool = true) : m.Run s (sts ++ c.stores) (c.outcome t).2 := by
  obtain ⟨ds, hexplains, hrun⟩ := h.exists_call ht hc hspared
  have hcomplete := hexplains.complete
  generalize (c.outcome t).1 = r at hok hcomplete
  cases r with
  | ok a => rwa [hcomplete a rfl] at hrun
  | error f => cases hok

end Run

end Mapping

end DemandPaging
