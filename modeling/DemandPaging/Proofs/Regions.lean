import DemandPaging.Proofs.View

/-!
The regions of an address space. They are kept in the order of their starts, and the search for the region around an
address only looks at the last one that starts there or below.
-/

namespace DemandPaging

/-- The region reaches over the address. -/
def Region.Contains (r : Region) (va : VirtAddr) : Prop := r.start.toNat ≤ va.toNat ∧ va.toNat < r.limit

/-- The values of a map are those of its entries, in the same order. -/
theorem values_eq_map_toList (rs : Std.ExtTreeMap VirtAddr Region) : rs.values = rs.toList.map Prod.snd := by
  obtain ⟨⟨q⟩⟩ := rs
  induction q using Quotient.ind with
  | _ t =>
    change t.inner.values = (Std.DTreeMap.Internal.Impl.Const.toList t.inner).map Prod.snd
    rw [Std.DTreeMap.Internal.Impl.values_eq_map_snd, Std.DTreeMap.Internal.Impl.Const.toList_eq_toListModel_map]
    simp

theorem mem_values {rs : Std.ExtTreeMap VirtAddr Region} {r : Region} :
    r ∈ rs.values ↔ ∃ va : VirtAddr, rs[va]? = some r := by
  simp only [values_eq_map_toList, List.mem_map, Prod.exists, exists_eq_right,
    Std.ExtTreeMap.mem_toList_iff_getElem?_eq_some]

/-- In a list in which each element is related to all that follow, each one is related to the last or is the last. -/
theorem eq_or_rel_of_getLast? {α : Type} {R : α → α → Prop} {l : List α} (h : l.Pairwise R) {x y : α} (hx : x ∈ l)
    (hy : l.getLast? = some y) : x = y ∨ R x y := by
  obtain ⟨ys, rfl⟩ := List.getLast?_eq_some_iff.1 hy
  rcases List.mem_append.1 hx with hx | hx
  · exact .inr ((List.pairwise_append.1 h).2.2 x hx y (List.mem_singleton_self y))
  · exact .inl (List.mem_singleton.1 hx)

namespace Space

/-- Every region is recorded at its start. -/
def Keyed (sp : Space) : Prop := ∀ (a : VirtAddr) (r : Region), sp.regions[a]? = some r → r.start = a

variable {sp : Space} {va : VirtAddr} {r : Region}

/-- The region in which an address lies is recorded, and reaches over it. -/
theorem contains_of_regionOf? (h : sp.regionOf? va = some r) :
    (∃ a : VirtAddr, sp.regions[a]? = some r) ∧ r.Contains va := by
  obtain ⟨hlast, hlimit⟩ := Option.filter_eq_some_iff.1 h
  obtain ⟨hmem, hstart⟩ := List.mem_filter.1 (List.mem_of_getLast? hlast)
  exact ⟨mem_values.1 hmem, of_decide_eq_true hstart, of_decide_eq_true hlimit⟩

/-- Where every region is recorded at its start, regions that start later come later. -/
theorem Keyed.pairwise (h : sp.Keyed) : sp.regions.values.Pairwise fun r r' => r.start.toNat < r'.start.toNat := by
  rw [values_eq_map_toList, List.pairwise_map]
  refine Std.ExtTreeMap.ordered_keys_toList.imp_of_mem fun {x y} hx hy hlt => ?_
  have hstart {z : VirtAddr × Region} (hz : z ∈ sp.regions.toList) : z.2.start = z.1 :=
    h _ _ (Std.ExtTreeMap.mem_toList_iff_getElem?_eq_some.1 hz)
  rw [hstart hx, hstart hy]
  exact Nat.compare_eq_lt.1 hlt

/-- The region around an address is found if no other one starts behind its start but not behind the address. -/
theorem Keyed.regionOf?_eq_some (h : sp.Keyed) {a : VirtAddr} (hr : sp.regions[a]? = some r) (hcontains : r.Contains va)
    (hlast : ∀ r' ∈ sp.regions.values, r'.start.toNat ≤ va.toNat → r'.start.toNat ≤ r.start.toNat) :
    sp.regionOf? va = some r := by
  have hmem : r ∈ sp.regions.values.filter fun r => r.start ≤ va :=
    List.mem_filter.2 ⟨mem_values.2 ⟨a, hr⟩, decide_eq_true hcontains.1⟩
  obtain ⟨r', hr'⟩ := Option.ne_none_iff_exists'.1 fun hnone =>
    List.ne_nil_of_mem hmem (List.getLast?_eq_none_iff.1 hnone)
  obtain ⟨hmem', hstart⟩ := List.mem_filter.1 (List.mem_of_getLast? hr')
  have hle := hlast r' hmem' (of_decide_eq_true hstart)
  obtain rfl | hlt := eq_or_rel_of_getLast? (h.pairwise.filter _) hmem hr'
  · exact Option.filter_eq_some_iff.2 ⟨hr', decide_eq_true hcontains.2⟩
  · omega

end Space

/-- Which region is around an address depends on what is on view only. -/
theorem System.regionOf?_congr {s t : System} {id id' : SpaceId}
    (h : ∀ a, t.view.regions ⟨id', a⟩ = s.view.regions ⟨id, a⟩)
    (va : VirtAddr) : (t.space id').regionOf? va = (s.space id).regionOf? va := by
  have hsame : (t.space id').regions = (s.space id).regions := Std.ExtTreeMap.ext_getElem? h
  rw [Space.regionOf?, Space.regionOf?, hsame]

end DemandPaging
