import Mathlib.Data.Multiset.AddSub
import Mathlib.Logic.Function.Basic
import DemandPaging.Clock

/-!
The clock queue as a finite map. Which value stands under a key does not depend on the links between neighbours,
so these facts hold of every queue, whether or not its links are in order.
-/

namespace DemandPaging.Clock

variable {κ α : Type} [Ord κ] [Std.TransOrd κ]

@[simp] theorem get?_empty (k : κ) : (empty : Clock κ α).get? k = none := by
  simp [empty, get?]

omit [Std.TransOrd κ] in
@[simp] theorem size_empty : (empty : Clock κ α).size = 0 := by
  simp [empty, size]

@[simp] theorem get?_setNext (q : Clock κ α) (k? next : Option κ) (k : κ) :
    (q.setNext k? next).get? k = q.get? k := by
  unfold setNext
  split
  · split
    · simp only [get?, Std.ExtTreeMap.getElem?_modify]
      split
      next h => simp [Std.ExtTreeMap.getElem?_congr h, Option.map_map, Function.comp_def]
      next => rfl
    · rfl
  · rfl

@[simp] theorem get?_setPrev (q : Clock κ α) (k? prev : Option κ) (k : κ) :
    (q.setPrev k? prev).get? k = q.get? k := by
  unfold setPrev
  split
  · split
    · simp only [get?, Std.ExtTreeMap.getElem?_modify]
      split
      next h => simp [Std.ExtTreeMap.getElem?_congr h, Option.map_map, Function.comp_def]
      next => rfl
    · rfl
  · rfl

@[simp] theorem size_setNext (q : Clock κ α) (k? next : Option κ) : (q.setNext k? next).size = q.size := by
  unfold setNext
  split
  · split <;> simp [size, Std.ExtTreeMap.size_modify]
  · rfl

@[simp] theorem size_setPrev (q : Clock κ α) (k? prev : Option κ) : (q.setPrev k? prev).size = q.size := by
  unfold setPrev
  split
  · split <;> simp [size, Std.ExtTreeMap.size_modify]
  · rfl

@[simp] theorem get?_detach (q : Clock κ α) (prev next : Option κ) (k : κ) :
    (q.detach prev next).get? k = q.get? k := by
  simp [detach]

@[simp] theorem size_detach (q : Clock κ α) (prev next : Option κ) : (q.detach prev next).size = q.size := by
  simp [detach]

@[simp] theorem get?_attach (q : Clock κ α) (k k' : κ) : (q.attach k).get? k' = q.get? k' := by
  have hmodify (r : Clock κ α) (f : ClockNode κ α → ClockNode κ α) (hf : ∀ n, (f n).value = n.value) :
      ({ r with nodes := r.nodes.modify k f } : Clock κ α).get? k' = r.get? k' := by
    simp only [get?, Std.ExtTreeMap.getElem?_modify]
    split
    next h => simp [Std.ExtTreeMap.getElem?_congr h, Option.map_map, Function.comp_def, hf]
    next => rfl
  have hset := get?_setNext { q with tail := some k } q.tail (some k) k'
  exact (hmodify _ (fun n => { n with prev := q.tail, next := none }) fun _ => rfl).trans hset

@[simp] theorem size_attach (q : Clock κ α) (k : κ) : (q.attach k).size = q.size := by
  have hset := size_setNext { q with tail := some k } q.tail (some k)
  simpa [attach, size, Std.ExtTreeMap.size_modify] using hset

@[simp] theorem get?_rotate (q : Clock κ α) (k : κ) : q.rotate.get? k = q.get? k := by
  unfold rotate
  split
  · rfl
  · split
    · rfl
    · simp

@[simp] theorem size_rotate (q : Clock κ α) : q.rotate.size = q.size := by
  unfold rotate
  split
  · rfl
  · split
    · rfl
    · simp

/-- The entry under the clock hand is one of the entries. -/
theorem get?_of_front? {q : Clock κ α} {k : κ} {a : α} (h : q.front? = some (k, a)) : q.get? k = some a := by
  unfold front? at h
  split at h
  · cases h
  · obtain ⟨b, hget, hpair⟩ := Option.map_eq_some_iff.1 h
    cases hpair
    exact hget

theorem remove?_eq_none_iff {q : Clock κ α} {k : κ} : q.remove? k = none ↔ q.get? k = none := by
  unfold remove? get?
  split <;> simp_all

section LawfulKeys

variable [Std.LawfulEqOrd κ] [DecidableEq κ]

/-- Taking out the entry under `k` yields its value and leaves all others. -/
theorem remove?_of_get? {q : Clock κ α} {k : κ} {a : α} (h : q.get? k = some a) :
    ∃ r, q.remove? k = some (a, r) ∧ r.size + 1 = q.size ∧
      ∀ k', r.get? k' = if k' = k then none else q.get? k' := by
  obtain ⟨n, hn, rfl⟩ := Option.map_eq_some_iff.1 h
  refine ⟨_, by simp only [remove?, hn]; rfl, ?_, fun k' => ?_⟩
  · have hmem : k ∈ q.nodes := Std.ExtTreeMap.mem_iff_isSome_getElem?.2 (by simp [hn])
    have hpos : 0 < q.nodes.size := by
      rw [← Std.ExtTreeMap.length_keys]
      exact List.length_pos_of_mem (Std.ExtTreeMap.mem_keys.2 hmem)
    rw [size_detach]
    simp only [size, Std.ExtTreeMap.size_erase, Std.ExtTreeMap.mem_iff_contains.1 hmem, if_true]
    omega
  · rw [get?_detach]
    simp only [get?, Std.ExtTreeMap.getElem?_erase, Std.compare_eq_iff_eq, eq_comm (a := k)]
    split <;> rfl

/-- An entry that could be taken out was there, and the others stay. -/
theorem get?_of_remove? {q r : Clock κ α} {k : κ} {a : α} (h : q.remove? k = some (a, r)) :
    q.get? k = some a ∧ ∀ k', r.get? k' = if k' = k then none else q.get? k' := by
  cases hget : q.get? k with
  | none =>
    rw [remove?_eq_none_iff.2 hget] at h
    cases h
  | some b =>
    obtain ⟨r', hremove, _, hrest⟩ := remove?_of_get? hget
    obtain ⟨rfl, rfl⟩ := Prod.mk.inj (Option.some.inj (hremove.symm.trans h))
    exact ⟨rfl, hrest⟩

/-- What stands under the keys after a value was put behind all others. -/
@[simp] theorem get?_pushBack (q : Clock κ α) (k k' : κ) (a : α) :
    (q.pushBack k a).2.get? k' = if k' = k then some a else q.get? k' := by
  have hinsert (r : Clock κ α) (hr : ∀ k', k' ≠ k → r.get? k' = q.get? k') :
      (({ r with nodes := r.nodes.insert k ⟨a, none, none⟩ } : Clock κ α).attach k).get? k' =
        if k' = k then some a else q.get? k' := by
    rw [get?_attach]
    by_cases hk : k' = k
    · subst hk
      simp [get?]
    · rw [if_neg hk, ← hr k' hk]
      simp [get?, Std.ExtTreeMap.getElem?_insert, Ne.symm hk]
  unfold pushBack
  split
  next old r hold =>
    cases hremove : q.remove? k with
    | none => simp only [hremove, Prod.mk.injEq] at hold; exact hold.2 ▸ hinsert q fun _ _ => rfl
    | some found =>
      simp only [hremove, Prod.mk.injEq] at hold
      obtain ⟨b, hget⟩ : ∃ b, q.get? k = some b := by
        rw [← Option.ne_none_iff_exists', ne_eq, ← remove?_eq_none_iff, hremove]
        simp
      obtain ⟨r', hr', _, hget'⟩ := remove?_of_get? hget
      rw [hremove, Option.some.injEq] at hr'
      subst hr'
      rw [← hold.2]
      exact hinsert _ fun k' hk => by rw [hget', if_neg hk]

theorem get?_pushBack_eq_update (q : Clock κ α) (k : κ) (a : α) :
    (q.pushBack k a).2.get? = Function.update q.get? k (some a) :=
  funext fun k' => by rw [get?_pushBack, Function.update_apply]

omit [Std.LawfulEqOrd κ] [DecidableEq κ] in
/-- A new key adds one entry. -/
theorem size_pushBack (q : Clock κ α) {k : κ} (a : α) (h : q.get? k = none) :
    (q.pushBack k a).2.size = q.size + 1 := by
  have hnot : k ∉ q.nodes := by
    rw [Std.ExtTreeMap.mem_iff_isSome_getElem?]
    simpa [get?] using h
  have hsize : (({ q with nodes := q.nodes.insert k ⟨a, none, none⟩ } : Clock κ α).attach k).size =
      q.size + 1 := by
    rw [size_attach]
    simp [size, Std.ExtTreeMap.size_insert, hnot]
  simpa [pushBack, remove?_eq_none_iff.2 h] using hsize

end LawfulKeys

/-- The keys that have a value, each once. -/
def keySet (q : Clock κ α) : Multiset κ := (q.nodes.keys : Multiset κ)

@[simp] theorem card_keySet (q : Clock κ α) : q.keySet.card = q.size := by
  simp [keySet, size, Std.ExtTreeMap.length_keys]

section LawfulKeys

variable [Std.LawfulEqOrd κ]

omit [Std.LawfulEqOrd κ] in
theorem nodup_keySet (q : Clock κ α) : q.keySet.Nodup := by
  simpa [keySet] using q.nodes.nodup_keys

theorem mem_keySet {q : Clock κ α} {k : κ} : k ∈ q.keySet ↔ ∃ a, q.get? k = some a := by
  simp only [keySet, Multiset.mem_coe, Std.ExtTreeMap.mem_keys, Std.ExtTreeMap.mem_iff_isSome_getElem?, get?]
  cases q.nodes[k]? <;> simp

end LawfulKeys

end DemandPaging.Clock
