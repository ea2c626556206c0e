import Mathlib.Data.List.Basic
import DemandPaging.Proofs.Clock

/-!
The order of the clock queue. From the head on, the links lead through all entries, each once, and from the tail back;
the queue goes round, what is put in stands behind all others, and what is taken out leaves the others in their order.
Keys need not be equal to stand for the same entry: it is enough that the order of keys does not tell them apart.
-/

namespace DemandPaging.Clock

variable {κ α : Type} {l A B : List (κ × α)} {e : κ × α}

/-! ### Keys -/

/-- The key of the first entry. -/
def firstKey (l : List (κ × α)) : Option κ := l.head?.map Prod.fst

/-- The key of the last entry. -/
def lastKey (l : List (κ × α)) : Option κ := l.getLast?.map Prod.fst

@[simp] theorem firstKey_nil : firstKey ([] : List (κ × α)) = none := rfl

@[simp] theorem lastKey_nil : lastKey ([] : List (κ × α)) = none := rfl

@[simp] theorem firstKey_cons : firstKey (e :: l) = some e.1 := rfl

@[simp] theorem lastKey_concat : lastKey (l ++ [e]) = some e.1 := by simp [lastKey]

theorem firstKey_append : firstKey (A ++ B) = (firstKey A).or (firstKey B) := by
  cases A <;> simp [firstKey]

theorem lastKey_append : lastKey (A ++ B) = (lastKey B).or (lastKey A) := by
  unfold lastKey
  rw [List.getLast?_append]
  cases B.getLast? <;> rfl

theorem lastKey_cons : lastKey (e :: l) = (lastKey l).or (some e.1) := lastKey_append (A := [e])

theorem lastKey_cases (l : List (κ × α)) : l = [] ∨ ∃ e ∈ l, lastKey l = some e.1 := by
  obtain rfl | ⟨A, e, rfl⟩ := List.eq_nil_or_concat l
  · exact .inl rfl
  · rw [List.concat_eq_append]
    exact .inr ⟨e, List.mem_append_right _ (List.mem_singleton_self e), lastKey_concat⟩

theorem firstKey_map {β : Type} {g : κ × α → β} (l : List (κ × α)) :
    firstKey (l.map fun e => (e.1, g e)) = firstKey l := by
  rw [firstKey, List.head?_map, Option.map_map]
  rfl

theorem lastKey_map {β : Type} {g : κ × α → β} (l : List (κ × α)) :
    lastKey (l.map fun e => (e.1, g e)) = lastKey l := by
  rw [lastKey, List.getLast?_map, Option.map_map]
  rfl

variable [Ord κ]

/-- No key stands for two entries. -/
def Distinct (l : List (κ × α)) : Prop := l.Pairwise fun e e' => compare e.1 e'.1 ≠ .eq

theorem Distinct.append (h : Distinct (A ++ B)) :
    Distinct A ∧ Distinct B ∧ ∀ e ∈ A, ∀ e' ∈ B, compare e.1 e'.1 ≠ .eq := List.pairwise_append.1 h

variable [Std.TransOrd κ] {k k' : κ} {a : α}

theorem Distinct.concat (h : Distinct l) (hk : ∀ e ∈ l, compare k e.1 ≠ .eq) : Distinct (l ++ [(k, a)]) := by
  refine List.pairwise_append.2 ⟨h, List.pairwise_singleton _ _, fun e he e' he' heq => ?_⟩
  rw [List.mem_singleton.1 he'] at heq
  exact hk e he (Std.OrientedCmp.eq_symm heq)

/-- An entry in the middle is the only one under its key. -/
theorem Distinct.compare_ne (h : Distinct (A ++ (k, a) :: B)) :
    (∀ e ∈ A, compare k e.1 ≠ .eq) ∧ ∀ e ∈ B, compare k e.1 ≠ .eq := by
  obtain ⟨-, hB, hAB⟩ := h.append
  exact ⟨fun e he heq => hAB e he (k, a) (List.mem_cons_self ..) (Std.OrientedCmp.eq_symm heq),
    (List.pairwise_cons.1 hB).1⟩

/-! ### Links -/

/-- The entries are stored with links to each other: the first one back to `prev`, the last one on to `next`. -/
def Linked (nodes : Std.ExtTreeMap κ (ClockNode κ α)) : Option κ → List (κ × α) → Option κ → Prop
  | _, [], _ => True
  | prev, (k, a) :: l, next => nodes[k]? = some ⟨a, prev, (firstKey l).or next⟩ ∧ Linked nodes (some k) l next

/-- From the head to the tail, the links of the queue lead through the entries. -/
structure Threads (q : Clock κ α) (l : List (κ × α)) : Prop where
  head : q.head = firstKey l
  tail : q.tail = lastKey l
  linked : Linked q.nodes none l none

/-- The entries of the queue are these, in this order, and nothing else is stored. -/
structure Represents (q : Clock κ α) (l : List (κ × α)) : Prop extends Threads q l where
  distinct : Distinct l
  stored : ∀ k ∈ q.nodes, ∃ e ∈ l, compare k e.1 = .eq
  size : q.size = l.length

/-- Who follows the links from `k?` on meets the keys, one after the other, and comes to an end. -/
inductive Leads (q : Clock κ α) : Option κ → List κ → Prop
  | done : Leads q none []
  | step {k : κ} {ks : List κ} (h : Leads q (q.nodes[k]?.bind ClockNode.next) ks) : Leads q (some k) (k :: ks)

variable {nodes nodes' : Std.ExtTreeMap κ (ClockNode κ α)} {q : Clock κ α} {prev next : Option κ}

theorem linked_append : Linked nodes prev (A ++ B) next ↔
    Linked nodes prev A ((firstKey B).or next) ∧ Linked nodes ((lastKey A).or prev) B next := by
  induction A generalizing prev with
  | nil => simp [Linked]
  | cons e A ih =>
    rw [lastKey_cons, Option.or_assoc, Option.some_or]
    simp only [List.cons_append, Linked, ih, firstKey_append, Option.or_assoc, and_assoc]

theorem Linked.congr (h : Linked nodes prev l next) (hnodes : ∀ e ∈ l, nodes'[e.1]? = nodes[e.1]?) :
    Linked nodes' prev l next := by
  induction l generalizing prev with
  | nil => trivial
  | cons e l ih =>
    obtain ⟨he, hrest⟩ := h
    exact ⟨(hnodes e (List.mem_cons_self ..)).trans he, ih hrest fun e he => hnodes e (List.mem_cons_of_mem _ he)⟩

/-- An entry is stored under its key. -/
theorem Linked.exists_node (h : Linked nodes prev l next) (he : e ∈ l) :
    ∃ n, nodes[e.1]? = some n ∧ n.value = e.2 := by
  induction l generalizing prev with
  | nil => cases he
  | cons e' l ih =>
    obtain ⟨hfirst, hrest⟩ := h
    cases he with
    | head => exact ⟨_, hfirst, rfl⟩
    | tail _ he => exact ih hrest he

theorem Linked.mem (h : Linked nodes prev l next) (he : e ∈ l) : e.1 ∈ nodes := by
  obtain ⟨n, hn, -⟩ := h.exists_node he
  exact Std.ExtTreeMap.mem_iff_isSome_getElem?.2 (Option.isSome_iff_exists.2 ⟨n, hn⟩)

@[simp] theorem tail_setNext (q : Clock κ α) (k? next : Option κ) : (q.setNext k? next).tail = q.tail := by
  unfold setNext
  split
  · split <;> rfl
  · rfl

@[simp] theorem head_setPrev (q : Clock κ α) (k? prev : Option κ) : (q.setPrev k? prev).head = q.head := by
  unfold setPrev
  split
  · split <;> rfl
  · rfl

theorem head_setNext_of_mem (hk : k ∈ q.nodes) (next : Option κ) : (q.setNext (some k) next).head = q.head := by
  rw [setNext, if_pos hk]

theorem tail_setPrev_of_mem (hk : k ∈ q.nodes) (prev : Option κ) : (q.setPrev (some k) prev).tail = q.tail := by
  rw [setPrev, if_pos hk]

theorem getElem?_modify (nodes : Std.ExtTreeMap κ (ClockNode κ α)) (k k' : κ) (f : ClockNode κ α → ClockNode κ α) :
    (nodes.modify k f)[k']? = if compare k k' = .eq then nodes[k']?.map f else nodes[k']? := by
  rw [Std.ExtTreeMap.getElem?_modify]
  split
  next h => rw [Std.ExtTreeMap.getElem?_congr h]
  next => rfl

/-- Where there is no node, there is nothing to change. -/
theorem getElem?_eq_ite_of_notMem {nodes : Std.ExtTreeMap κ (ClockNode κ α)} {k : κ} (hk : k ∉ nodes) (k' : κ)
    (f : ClockNode κ α → ClockNode κ α) :
    nodes[k']? = if compare k k' = .eq then nodes[k']?.map f else nodes[k']? := by
  split
  next h => rw [← Std.ExtTreeMap.getElem?_congr h, Std.ExtTreeMap.getElem?_eq_none hk, Option.map_none]
  next => rfl

theorem getElem?_setNext (q : Clock κ α) (k : κ) (next : Option κ) (k' : κ) : (q.setNext (some k) next).nodes[k']? =
    if compare k k' = .eq then q.nodes[k']?.map fun n => { n with next := next } else q.nodes[k']? := by
  simp only [setNext]
  split
  next => exact getElem?_modify ..
  next hnot => exact getElem?_eq_ite_of_notMem hnot ..

theorem getElem?_setPrev (q : Clock κ α) (k : κ) (prev : Option κ) (k' : κ) : (q.setPrev (some k) prev).nodes[k']? =
    if compare k k' = .eq then q.nodes[k']?.map fun n => { n with prev := prev } else q.nodes[k']? := by
  simp only [setPrev]
  split
  next => exact getElem?_modify ..
  next hnot => exact getElem?_eq_ite_of_notMem hnot ..

/-- Where none of the keys is the changed one, the nodes stay. -/
theorem getElem?_setNext_of_ne {k? : Option κ} (h : ∀ k ∈ k?, compare k k' ≠ .eq) (next : Option κ) :
    (q.setNext k? next).nodes[k']? = q.nodes[k']? := by
  cases k? with
  | none => rfl
  | some k => rw [getElem?_setNext, if_neg (h k rfl)]

theorem getElem?_setPrev_of_ne {k? : Option κ} (h : ∀ k ∈ k?, compare k k' ≠ .eq) (prev : Option κ) :
    (q.setPrev k? prev).nodes[k']? = q.nodes[k']? := by
  cases k? with
  | none => rfl
  | some k => rw [getElem?_setPrev, if_neg (h k rfl)]

/-- The last one of the entries may lead on to another place. -/
theorem Linked.setNext (h : Linked q.nodes prev l next) (hl : Distinct l) (next' : Option κ) :
    Linked (q.setNext (lastKey l) next').nodes prev l next' := by
  obtain rfl | ⟨A, e, rfl⟩ := List.eq_nil_or_concat l
  · trivial
  · rw [List.concat_eq_append] at h hl ⊢
    obtain ⟨hA, hlast, -⟩ := linked_append.1 h
    rw [lastKey_concat]
    refine linked_append.2 ⟨hA.congr fun e' he' => ?_, ?_, trivial⟩
    · rw [getElem?_setNext, if_neg (hl.compare_ne.1 e' he')]
    · rw [getElem?_setNext, if_pos Std.ReflCmp.compare_self, hlast]
      rfl

/-- The first one of the entries may lead back to another place. -/
theorem Linked.setPrev (h : Linked q.nodes prev l next) (hl : Distinct l) (prev' : Option κ) :
    Linked (q.setPrev (firstKey l) prev').nodes prev' l next := by
  cases l with
  | nil => trivial
  | cons e l =>
    obtain ⟨hfirst, hrest⟩ := h
    rw [firstKey_cons]
    refine ⟨?_, hrest.congr fun e' he' => ?_⟩
    · rw [getElem?_setPrev, if_pos Std.ReflCmp.compare_self, hfirst]
      rfl
    · rw [getElem?_setPrev, if_neg ((List.pairwise_cons.1 hl).1 e' he')]

theorem Linked.modify (h : Linked q.nodes prev l next) (k : κ) (f : α → α) :
    Linked (q.modify k f).nodes prev (l.map fun e => (e.1, if compare k e.1 = .eq then f e.2 else e.2)) next := by
  induction l generalizing prev with
  | nil => trivial
  | cons e l ih =>
    obtain ⟨hnode, hrest⟩ := h
    refine ⟨?_, ih hrest⟩
    rw [firstKey_map]
    simp only [Clock.modify, getElem?_modify, hnode]
    split <;> rfl

/-- What stood between two runs of entries is passed over. -/
theorem threads_detach (hA : Linked q.nodes none A (some k)) (hB : Linked q.nodes (some k) B none)
    (hdistinct : Distinct (A ++ B)) (hhead : q.head = (firstKey A).or (some k))
    (htail : q.tail = (lastKey B).or (some k)) : (q.detach (lastKey A) (firstKey B)).Threads (A ++ B) := by
  obtain ⟨hdistinctA, hdistinctB, hAB⟩ := hdistinct.append
  have hfirst : ∀ e ∈ A, ∀ k ∈ firstKey B, compare k e.1 ≠ .eq := by
    intro e he k hk heq
    obtain ⟨e', he', rfl⟩ := Option.map_eq_some_iff.1 hk
    exact hAB e he e' (List.mem_of_head? he') (Std.OrientedCmp.eq_symm heq)
  have hlast : ∀ e ∈ B, ∀ k ∈ lastKey A, compare k e.1 ≠ .eq := by
    intro e he k hk
    obtain ⟨e', he', rfl⟩ := Option.map_eq_some_iff.1 hk
    exact hAB e' (List.mem_of_getLast? he') e he
  have hA' : Linked (q.setPrev (firstKey B) (lastKey A)).nodes none A (some k) :=
    hA.congr fun e he => getElem?_setPrev_of_ne (hfirst e he) _
  have hB' : Linked (q.setPrev (firstKey B) (lastKey A)).nodes (lastKey A) B none := hB.setPrev hdistinctB (lastKey A)
  refine ⟨?_, ?_, linked_append.2 ⟨?_, ?_⟩⟩
  · rw [detach, firstKey_append]
    obtain rfl | ⟨e, he, hkey⟩ := lastKey_cases A
    · rfl
    · rw [hkey] at hA' ⊢
      rw [head_setNext_of_mem (hA'.mem he), head_setPrev, hhead]
      cases A with
      | nil => cases he
      | cons => rfl
  · rw [detach, tail_setNext, lastKey_append]
    cases B with
    | nil => rfl
    | cons b B =>
      rw [firstKey_cons, tail_setPrev_of_mem (hB.mem (List.mem_cons_self ..)), htail, lastKey_cons, Option.or_assoc,
        Option.or_assoc]
      rfl
  · rw [Option.or_none]
    exact hA'.setNext hdistinctA (firstKey B)
  · rw [Option.or_none]
    exact hB'.congr fun e he => getElem?_setNext_of_ne (hlast e he) _

/-- An entry that the links pass over is linked behind all others. -/
theorem Threads.attach (h : q.Threads l) (hget : q.get? k = some a) (hl : Distinct l)
    (hk : ∀ e ∈ l, compare k e.1 ≠ .eq) : (q.attach k).Threads (l ++ [(k, a)]) := by
  obtain ⟨n, hn, rfl⟩ := Option.map_eq_some_iff.1 hget
  set r : Clock κ α := { q with tail := some k }.setNext q.tail (some k) with hr
  have hattach : q.attach k = { r with nodes := r.nodes.modify k fun n => { n with prev := q.tail, next := none } } := rfl
  have hlinked : Linked r.nodes none l (some k) := by
    rw [hr, h.tail]
    exact Linked.setNext (q := { q with tail := some k }) h.linked hl (some k)
  have hnode : r.nodes[k]? = some n := by
    rw [hr, getElem?_setNext_of_ne, hn]
    intro k' hk' heq
    rw [h.tail] at hk'
    obtain ⟨e, he, rfl⟩ := Option.map_eq_some_iff.1 hk'
    exact hk e (List.mem_of_getLast? he) (Std.OrientedCmp.eq_symm heq)
  rw [hattach]
  refine ⟨?_, ?_, linked_append.2 ⟨hlinked.congr fun e he => ?_, ?_, trivial⟩⟩
  · change r.head = _
    rw [firstKey_append, hr, h.tail]
    obtain rfl | ⟨e, he, hkey⟩ := lastKey_cases l
    · rfl
    · have hstored : e.1 ∈ ({ q with tail := some k } : Clock κ α).nodes := h.linked.mem he
      rw [hkey, head_setNext_of_mem hstored]
      cases l with
      | nil => cases he
      | cons => exact h.head
  · change r.tail = _
    rw [hr, tail_setNext, lastKey_concat]
  · rw [getElem?_modify, if_neg (hk e he)]
  · rw [getElem?_modify, if_pos Std.ReflCmp.compare_self, hnode, Option.or_none, h.tail]
    rfl

theorem Leads.keysFrom_eq {k? : Option κ} {ks : List κ} (h : q.Leads k? ks) : q.keysFrom ks.length k? = ks := by
  induction h with
  | done => rfl
  | step _ ih => rw [List.length_cons, keysFrom, ih]

/-! ### Entries -/

theorem mem_nodes_iff : k ∈ q.nodes ↔ ∃ a, q.get? k = some a := by
  rw [Std.ExtTreeMap.mem_iff_isSome_getElem?, Clock.get?]
  cases q.nodes[k]? <;> simp

/-- Keys that stand for the same entry have the same value. -/
theorem get?_congr (q : Clock κ α) (h : compare k k' = .eq) : q.get? k = q.get? k' := by
  rw [Clock.get?, Clock.get?, Std.ExtTreeMap.getElem?_congr h]

namespace Represents

theorem empty : (Clock.empty : Clock κ α).Represents [] :=
  ⟨⟨rfl, rfl, trivial⟩, List.Pairwise.nil, fun _ h => absurd h Std.ExtTreeMap.not_mem_empty, rfl⟩

/-- An entry in the middle is linked to both its neighbours. -/
theorem node_eq (h : q.Represents (A ++ (k, a) :: B)) : q.nodes[k]? = some ⟨a, lastKey A, firstKey B⟩ := by
  obtain ⟨-, hk, -⟩ := linked_append.1 h.linked
  rwa [Option.or_none, Option.or_none] at hk

theorem get?_eq (h : q.Represents l) (he : e ∈ l) (hk : compare k e.1 = .eq) : q.get? k = some e.2 := by
  obtain ⟨n, hn, hvalue⟩ := h.linked.exists_node he
  rw [q.get?_congr hk, Clock.get?, hn, Option.map_some, hvalue]

theorem get?_eq_none (h : q.Represents l) (hk : ∀ e ∈ l, compare k e.1 ≠ .eq) : q.get? k = none := by
  refine Option.eq_none_iff_forall_ne_some.2 fun a ha => ?_
  obtain ⟨e, he, heq⟩ := h.stored k (mem_nodes_iff.2 ⟨a, ha⟩)
  exact hk e he heq

theorem front?_eq (h : q.Represents l) : q.front? = l.head? := by
  cases l with
  | nil => rw [front?, h.head]; rfl
  | cons e l =>
    have hget := h.get?_eq (List.mem_cons_self ..) Std.ReflCmp.compare_self
    simp only [front?, h.head, firstKey_cons, hget, Option.map_some, List.head?_cons]

/-- The entry in front goes behind all others. -/
theorem rotate (h : q.Represents (e :: l)) : q.rotate.Represents (l ++ [e]) := by
  obtain ⟨k, a⟩ := e
  have hnode := node_eq (A := []) h
  obtain ⟨-, hk⟩ := Distinct.compare_ne (A := []) h.distinct
  have hl : Distinct l := (List.pairwise_cons.1 h.distinct).2
  have hrotate : q.rotate = (q.detach (lastKey ([] : List (κ × α))) (firstKey l)).attach k := by
    rw [Clock.rotate, h.head, firstKey_cons]
    simp only [hnode]
  have htail : q.tail = (lastKey l).or (some k) := by rw [h.tail, lastKey_cons]
  have hthreads : (q.detach (lastKey ([] : List (κ × α))) (firstKey l)).Threads l :=
    threads_detach (A := []) (k := k) trivial h.linked.2 hl h.head htail
  have hget : (q.detach (lastKey ([] : List (κ × α))) (firstKey l)).get? k = some a := by
    rw [get?_detach, Clock.get?, hnode]
    rfl
  refine ⟨hrotate ▸ hthreads.attach hget hl hk, hl.concat hk, fun k' hk' => ?_, ?_⟩
  · rw [mem_nodes_iff, get?_rotate, ← mem_nodes_iff] at hk'
    obtain ⟨e, he, heq⟩ := h.stored k' hk'
    exact ⟨e, (List.perm_append_singleton (k, a) l).mem_iff.2 he, heq⟩
  · rw [size_rotate, h.size, List.length_append, List.length_cons]
    rfl

/-- An entry that is taken out leaves the others in their order. -/
theorem remove? (h : q.Represents (A ++ (k, a) :: B)) (hk : compare k' k = .eq) :
    ∃ r, q.remove? k' = some (a, r) ∧ r.Represents (A ++ B) := by
  obtain ⟨hA, hB⟩ := linked_append.1 h.linked
  obtain ⟨hneA, hneB⟩ := h.distinct.compare_ne
  have hne {e : κ × α} (he : e ∈ A ++ B) : compare k' e.1 ≠ .eq := by
    rw [Std.TransCmp.congr_left hk]
    exact (List.mem_append.1 he).elim (hneA e) (hneB e)
  have hother {e : κ × α} (he : e ∈ A ++ B) : (q.nodes.erase k')[e.1]? = q.nodes[e.1]? := by
    rw [Std.ExtTreeMap.getElem?_erase, if_neg (hne he)]
  have hnode : q.nodes[k']? = some ⟨a, lastKey A, firstKey B⟩ := by rw [Std.ExtTreeMap.getElem?_congr hk, h.node_eq]
  have hdistinct : Distinct (A ++ B) := h.distinct.sublist ((List.sublist_cons_self ..).append_left A)
  have hremove : q.remove? k' = some (a, { q with nodes := q.nodes.erase k' }.detach (lastKey A) (firstKey B)) := by
    rw [Clock.remove?, hnode]
  refine ⟨_, hremove, threads_detach (k := k) ?_ ?_ hdistinct ?_ ?_, hdistinct, fun k'' hk'' => ?_, ?_⟩
  · exact hA.congr fun e he => hother (List.mem_append_left _ he)
  · exact hB.2.congr fun e he => hother (List.mem_append_right _ he)
  · rw [← firstKey_cons (e := (k, a)) (l := B), ← firstKey_append]
    exact h.head
  · change q.tail = _
    rw [h.tail, lastKey_append, lastKey_cons, Option.or_assoc]
    rfl
  · rw [mem_nodes_iff, get?_detach, ← mem_nodes_iff, Std.ExtTreeMap.mem_erase] at hk''
    obtain ⟨e, he, heq⟩ := h.stored k'' hk''.2
    refine ⟨e, ?_, heq⟩
    obtain he | he | he : e ∈ A ∨ e = (k, a) ∨ e ∈ B := by simpa using he
    · exact List.mem_append_left _ he
    · rw [he] at heq
      exact absurd (Std.TransCmp.eq_trans hk (Std.OrientedCmp.eq_symm heq)) hk''.1
    · exact List.mem_append_right _ he
  · have hmem : k' ∈ q.nodes := Std.ExtTreeMap.mem_iff_isSome_getElem?.2 (by rw [hnode]; rfl)
    have hsize : q.nodes.size = (A ++ (k, a) :: B).length := h.size
    rw [size_detach, Clock.size, Std.ExtTreeMap.size_erase, if_pos (Std.ExtTreeMap.mem_iff_contains.1 hmem), hsize,
      List.length_append, List.length_append]
    rfl

/-- An entry that is put in under a new key stands behind all others. -/
theorem insert (h : q.Represents l) (hk : ∀ e ∈ l, compare k e.1 ≠ .eq) (a : α) :
    ({ q with nodes := q.nodes.insert k ⟨a, none, none⟩ }.attach k).Represents (l ++ [(k, a)]) := by
  set r : Clock κ α := { q with nodes := q.nodes.insert k ⟨a, none, none⟩ } with hr
  have hthreads : r.Threads l := by
    refine ⟨h.head, h.tail, h.linked.congr fun e he => ?_⟩
    rw [hr, Std.ExtTreeMap.getElem?_insert, if_neg (hk e he)]
  have hget : r.get? k = some a := by
    rw [hr, Clock.get?, Std.ExtTreeMap.getElem?_insert_self]
    rfl
  refine ⟨hthreads.attach hget h.distinct hk, h.distinct.concat hk, fun k' hk' => ?_, ?_⟩
  · rw [mem_nodes_iff, get?_attach, ← mem_nodes_iff, Std.ExtTreeMap.mem_insert] at hk'
    obtain heq | hk' := hk'
    · exact ⟨(k, a), List.mem_append_right _ (List.mem_singleton_self _), Std.OrientedCmp.eq_symm heq⟩
    · obtain ⟨e, he, heq⟩ := h.stored k' hk'
      exact ⟨e, List.mem_append_left _ he, heq⟩
  · have hnot : k ∉ q.nodes := fun hmem => by
      obtain ⟨e, he, heq⟩ := h.stored k hmem
      exact hk e he heq
    rw [size_attach, hr, Clock.size, Std.ExtTreeMap.size_insert,
      if_neg fun hmem => hnot (Std.ExtTreeMap.mem_iff_contains.2 hmem), List.length_append]
    exact congrArg Nat.succ h.size

/-- The value under the key changes, the keys and their order stay. -/
theorem modify (h : q.Represents l) (k : κ) (f : α → α) :
    (q.modify k f).Represents (l.map fun e => (e.1, if compare k e.1 = .eq then f e.2 else e.2)) where
  head := h.head.trans (firstKey_map l).symm
  tail := h.tail.trans (lastKey_map l).symm
  linked := h.linked.modify k f
  distinct := List.pairwise_map.2 h.distinct
  stored k' hk' := by
    obtain ⟨e, he, heq⟩ := h.stored k' (Std.ExtTreeMap.mem_modify.1 hk')
    exact ⟨_, List.mem_map_of_mem he, heq⟩
  size := by
    rw [List.length_map, ← h.size]
    exact Std.ExtTreeMap.size_modify

theorem leads_firstKey (h : q.Represents (A ++ B)) : q.Leads (firstKey B) (B.map Prod.fst) := by
  induction B generalizing A with
  | nil => exact .done
  | cons e B ih =>
    refine .step ?_
    rw [h.node_eq]
    exact ih (A := A ++ [e]) (by simpa using h)

/-- The way along the links from the head on meets all entries in their order. -/
theorem leads (h : q.Represents l) : q.Leads q.head (l.map Prod.fst) := h.head ▸ leads_firstKey (A := []) h

theorem keys_eq (h : q.Represents l) : q.keys = l.map Prod.fst := by
  rw [keys, h.size, ← List.length_map Prod.fst]
  exact h.leads.keysFrom_eq

/-- The listing of the queue is the list of its entries. -/
theorem toList_eq (h : q.Represents l) : q.toList = l := by
  have hentry (e : κ × α) (he : e ∈ l) : ((fun k => (q.get? k).map (k, ·)) ∘ Prod.fst) e = some e := by
    rw [Function.comp_apply, h.get?_eq he Std.ReflCmp.compare_self]
    rfl
  rw [toList, h.keys_eq, List.filterMap_map, List.filterMap_congr hentry, List.filterMap_some]

end Represents

end DemandPaging.Clock
