import DemandPaging.Proofs.FaultResolution
import DemandPaging.Proofs.PageIdentity
import DemandPaging.Proofs.SegmentImage

/-!
Segments whose numbers are not to be trusted. Their sums are checked where they are needed: the size before anything is
described, the position of a page when the page is reached, and the end of its share of the file only when the page is
loaded. Each of these checks panics.
-/

namespace DemandPaging

open Paging

namespace Segment

variable {g : Segment} {s t u : System} {i : Nat} {va : VirtAddr} {f : Failure}

/-- Where the shares of all pages start at words, only the very last byte of all that can be addressed puts the end of a
share out of range. -/
theorem end_eq_of_limit_le (hrequest : g.IsRequest) (hposition : ∀ j < g.count, g.HasPosition j) (hi : i < g.count)
    {w : FileWindow} (hw : g.source i = .file w) (hlimit : Word.limit ≤ w.offset + w.readBytes) :
    g.offset + g.readBytes = Word.limit ∧ g.readBytes ≤ (i + 1) * pageSize := by
  have hword : Word.limit = 2 ^ 64 := rfl
  have hpage : pageSize = 4096 := rfl
  have hsize : g.readBytes ≤ g.size := Nat.le_add_right ..
  have halign := hrequest.size_aligned
  have hoffset := hrequest.offset_aligned
  have hnext : i + 1 < g.count → g.HasPosition (i + 1) := hposition (i + 1)
  have hthis := hposition i hi
  unfold source at hw
  split at hw
  · cases hw
  next hshare =>
    cases hw
    simp only [FileWindow.new, HasPosition, count, hpage] at hlimit halign hoffset hnext hthis hi hshare ⊢
    omega

/-- A page of a segment that was registered and not removed is still to be loaded as was said then, or it was loaded and
has left the file behind. -/
theorem Registers.page_of_stays (h : g.Registers s t) (ht : t.Reachable) (hi : i < g.count) (hu : t.Stays (g.place i) u) :
    u.Steady ∧ ∃ page, u.page? (g.place i) = some page ∧ page.writable = g.writable ∧
      ∀ w, page.kind.source? = some w → g.source i = .file w := by
  obtain ⟨n, sts, hlater⟩ := hu.exists_later ht (Option.isSome_of_eq_some (h.page i hi))
  obtain ⟨page, hpage, hcontinues, -⟩ := hlater.continues (h.page i hi)
  refine ⟨(hlater.reachable ht).steady, page, hpage, hcontinues.writable, fun w hw => ?_⟩
  cases hkind : page.kind with
  | pending q =>
    have hsame := hcontinues.pending (by rw [hkind]; rfl)
    rw [hsame] at hw
    cases hsource : g.source i with
    | zero =>
      simp only [PageEntry.pending, hsource] at hw
      cases hw
    | file w' =>
      simp only [PageEntry.pending, hsource] at hw
      cases hw
      rfl
  | anon slot =>
    rw [hkind] at hw
    cases hw
  | file w' =>
    have htype := hcontinues.type
    rw [hkind] at htype
    cases htype

/-- A page of a segment that was registered can be claimed at any time, or the claim fails as any claim may. Only where the
segment takes the very last byte that can be addressed does the claim of the page with this byte overflow. -/
theorem Registers.wp_claim (h : g.Registers s t) (ht : t.Reachable) (hrequest : g.IsRequest)
    (hposition : ∀ j < g.count, g.HasPosition j) (hi : i < g.count) (hu : t.Stays (g.place i) u)
    (hva : va.pageDown = g.run.addr i) :
    wp (Paging.claim g.space va) u
      (fun pa v => ∃ page, v.page? (g.place i) = some page ∧ page.frame = some pa ∧ page.writable = g.writable)
      fun f _ => f.IsExpected ∨
        f = .panic (.overflow .add) ∧ g.offset + g.readBytes = Word.limit ∧ g.readBytes ≤ (i + 1) * pageSize := by
  obtain ⟨hsteady, page, hpage, hwritable, hsource⟩ := h.page_of_stays ht hi hu
  have hplace : (⟨g.space, va.pageDown⟩ : PageId) = g.place i := congrArg (PageId.mk g.space) hva
  rw [← hplace] at hpage ⊢
  refine ((hsteady.claim hpage).and (wp_self _)).mono (fun pa v hv => ?_) fun f v hv => ?_
  · obtain ⟨-, -, page', hpage', hframe, hwritable'⟩ := hv.1
    exact ⟨page', hpage', hframe, hwritable'.trans hwritable⟩
  · refine (hsteady.failure_of_claim hpage hv.2).imp_right fun ⟨hf, w, hw, hlimit⟩ => ?_
    exact ⟨hf, end_eq_of_limit_le hrequest hposition hi (hsource w hw) hlimit⟩

end Segment

namespace System

variable {s : System} {g : Segment}

/-- Whatever the numbers of a segment are, its registration ends as `Segment.Ends` says. If the size is a word, and no byte
of the file that is asked for lies out of range, it leaves everything as it was when it does not succeed, and fails with an
error. Once the segment is registered, each of its pages can be claimed whenever it is there, or the claim fails with an
error or because frames or slots have run out, unless the bytes of the file end with the last one that can be addressed and
the page is the one that needs this byte. -/
theorem Reachable.segment_overflows_only_out_of_range (hs : s.Reachable) (hid : g.space ∈ s.spaces)
    (hstart : g.start.toNat < Word.limit) :
    g.Ends s (mapSegment g.space g.file g.offset g.start g.readBytes g.zeroBytes g.writable s) ∧
    (g.size < Word.limit → g.offset + g.readBytes ≤ Word.limit → ∀ f t,
      mapSegment g.space g.file g.offset g.start g.readBytes g.zeroBytes g.writable s = .error f t →
        t = s ∧ ∃ e, f = .error e) ∧
    ∀ t, mapSegment g.space g.file g.offset g.start g.readBytes g.zeroBytes g.writable s = .ok () t →
      g.IsRequest ∧ g.Registers s t ∧ ∀ i < g.count, ∀ u va, t.Stays (g.place i) u → va.pageDown = g.run.addr i →
        wp (Paging.claim g.space va) u
          (fun pa v => ∃ page, v.page? (g.place i) = some page ∧ page.frame = some pa ∧ page.writable = g.writable)
          fun f _ => f.IsExpected ∨
            f = .panic (.overflow .add) ∧ g.offset + g.readBytes = Word.limit ∧ g.readBytes ≤ (i + 1) * pageSize := by
  have hends := Segment.ends hid hstart
  refine ⟨hends, fun hsize hread f t h => ?_, fun t h => ?_⟩
  · rw [h] at hends
    cases hends with
    | size hover => exact absurd hsize (Nat.not_lt.2 hover)
    | invalid | refused => exact ⟨rfl, _, rfl⟩
    | position _ _ _ hposition => exact absurd (Segment.hasPosition hread _) hposition
  · have hadmissible :
        (Call.mapSegment g.space g.file g.offset g.start g.readBytes g.zeroBytes g.writable).Admissible s :=
      ⟨fun id hid' => Option.mem_some_iff.1 hid' ▸ hid, fun _ h => (by cases h), fun _ h => by cases h⟩
    have ht : t.Reachable := by
      have hcall := hs.call hadmissible
      rwa [Call.outcome, Call.run, bind_eq_of_eq_ok h] at hcall
    rw [h] at hends
    cases hends with
    | registered _ hrequest hfits =>
      have hregisters : g.Registers s (g.registered s) :=
        Segment.registers hid fun i hi => pageRefusal?_eq_none_iff.1 (hfits i hi).free
      exact ⟨hrequest, hregisters, fun i hi u va hu hva =>
        hregisters.wp_claim ht hrequest (fun j hj => (hfits j hj).position) hi hu hva⟩

/-- A segment of two pages, the second of which starts one page below the end of all that can be addressed. -/
def distant : Segment := ⟨0, 0, Word.limit - 8192, ⟨0x10000⟩, 4097, 4095, true⟩

/-- A segment far behind the end of its file is registered. Its second page, claimed after the first one, fails with an error
since the file is too short, and no claim of it overflows. The segment is refused when it is registered again, and nothing
changes. -/
theorem exists_distant_segment : ∃ (s t u v : System) (g : Segment), s.Reachable ∧ g.count = 2 ∧
    g.offset + pageSize < Word.limit ∧ Word.limit < g.offset + g.readBytes + pageSize ∧ g.Registers s t ∧
    mapSegment g.space g.file g.offset g.start g.readBytes g.zeroBytes g.writable t = .error (.error .fileExist) t ∧
    t.Stays (g.place 1) u ∧ Paging.claim g.space ⟨0x11fff⟩ u = .error (.error .ioError) v ∧
    ∀ f w, Paging.claim g.space ⟨0x11fff⟩ u = .error f w → f.IsExpected := by
  have hs : beforeProgram.Reachable := (Reachable.initial (initial_small _)).after (by decide +kernel)
  obtain ⟨t, hok⟩ : ∃ t, mapSegment 0 0 (Word.limit - 8192) ⟨0x10000⟩ 4097 4095 true beforeProgram = .ok () t :=
    exists_of_result (by decide +kernel)
  have hdone : t = outcomeOf (mapSegment 0 0 (Word.limit - 8192) ⟨0x10000⟩ 4097 4095 true) beforeProgram := by
    rw [outcomeOf, hok]
  have ht : t.Reachable := by
    have hcall : ((Call.mapSegment 0 0 (Word.limit - 8192) ⟨0x10000⟩ 4097 4095 true).outcome beforeProgram).2.Reachable :=
      hs.call (by decide +kernel)
    rwa [Call.outcome, Call.run, bind_eq_of_eq_ok hok] at hcall
  obtain ⟨-, hregisters, hclaims⟩ := (Reachable.segment_overflows_only_out_of_range (g := distant) hs (by decide +kernel)
    (by decide)).2.2 t hok
  obtain ⟨w, hagain⟩ : ∃ w, mapSegment 0 0 (Word.limit - 8192) ⟨0x10000⟩ 4097 4095 true t = .error (.error .fileExist) w := by
    rw [hdone]
    exact exists_of_errno (by decide +kernel)
  obtain ⟨rfl, -⟩ := (Reachable.segment_overflows_only_out_of_range (g := distant) ht (by rw [hdone]; decide +kernel)
    (by decide)).2.1 (by decide) (by decide) _ w hagain
  have hstays : w.Stays (distant.place 1) ((Call.claim 0 ⟨0x10000⟩).outcome w).2 :=
    Stays.here.call (by rw [hdone]; decide +kernel) (by rw [hdone]; decide +kernel)
  obtain ⟨v, hshort⟩ : ∃ v, Paging.claim 0 ⟨0x11fff⟩ ((Call.claim 0 ⟨0x10000⟩).outcome w).2 = .error (.error .ioError) v := by
    rw [hdone]
    exact exists_of_errno (by decide +kernel)
  refine ⟨_, w, _, v, distant, hs, by decide, by decide, by decide, hregisters, hagain, hstays, hshort, fun f x hf => ?_⟩
  refine ((hclaims 1 (by decide) _ ⟨0x11fff⟩ hstays (by decide)).of_error hf).resolve_right ?_
  rintro ⟨-, hend, -⟩
  revert hend
  decide

/-- There are segments whose registration overflows. Either nothing happens, if the numbers of bytes have no sum, or the
first page stays described, if the second one has no position. A segment that takes the last byte that can be addressed is
registered, and then its page cannot be claimed without an overflow. -/
theorem exists_segment_that_overflows : ∃ s : System, s.Reachable ∧ 0 ∈ s.spaces ∧ s.page? ⟨0, ⟨0x10000⟩⟩ = none ∧
    mapSegment 0 0 0 ⟨0x10000⟩ (Word.limit - 4096) 4096 true s = .error (.panic (.overflow .add)) s ∧
    (∃ t, mapSegment 0 0 (Word.limit - 4096) ⟨0x10000⟩ 8192 0 true s = .error (.panic (.overflow .add)) t ∧
      (t.page? ⟨0, ⟨0x10000⟩⟩).isSome) ∧
    ∃ t u, mapSegment 0 0 (Word.limit - 4096) ⟨0x10000⟩ 4096 0 true s = .ok () t ∧
      Paging.claim 0 ⟨0x10000⟩ t = .error (.panic (.overflow .add)) u := by
  have hs : beforeProgram.Reachable := (Reachable.initial (initial_small _)).after (by decide +kernel)
  obtain ⟨t, hstopped⟩ : ∃ t, mapSegment 0 0 (Word.limit - 4096) ⟨0x10000⟩ 8192 0 true beforeProgram =
      .error (.panic (.overflow .add)) t := exists_of_failure (by decide +kernel)
  have hleft : t = outcomeOf (mapSegment 0 0 (Word.limit - 4096) ⟨0x10000⟩ 8192 0 true) beforeProgram := by
    rw [outcomeOf, hstopped]
  obtain ⟨u, hok⟩ : ∃ u, mapSegment 0 0 (Word.limit - 4096) ⟨0x10000⟩ 4096 0 true beforeProgram = .ok () u :=
    exists_of_result (by decide +kernel)
  have hdone : u = outcomeOf (mapSegment 0 0 (Word.limit - 4096) ⟨0x10000⟩ 4096 0 true) beforeProgram := by
    rw [outcomeOf, hok]
  obtain ⟨v, hclaim⟩ : ∃ v, Paging.claim 0 ⟨0x10000⟩ u = .error (.panic (.overflow .add)) v := by
    rw [hdone]
    exact exists_of_failure (by decide +kernel)
  refine ⟨_, hs, by decide +kernel, by decide +kernel, rfl, ⟨t, hstopped, ?_⟩, u, v, hok, hclaim⟩
  rw [hleft]
  decide +kernel

end System

end DemandPaging
