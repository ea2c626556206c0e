import DemandPaging.Proofs.ClockOrder
import DemandPaging.Proofs.Session

/-!
The clock queue as a plain sequence. Whatever it is asked, one request after the other, it replies as the list of its
entries would, and its links stay in order.
-/

namespace DemandPaging

variable {κ α : Type}

/-- A request to a queue of values under keys. -/
inductive ClockRequest (κ α : Type) where
  | pushBack (k : κ) (a : α)
  | front
  | rotate
  | get (k : κ)
  /-- Looks at the value under `k` and leaves its image by `f` there. -/
  | modify (k : κ) (f : α → α)
  | remove (k : κ)
  | keys
  | size
  | isEmpty

/-- The reply of a queue to a request. -/
inductive ClockReply (κ α : Type) where
  | done
  | value (a : Option α)
  | entry (e : Option (κ × α))
  | keys (ks : List κ)
  | size (n : Nat)
  | isEmpty (b : Bool)
  deriving DecidableEq

/-! ### Lists of entries -/

namespace Entries

variable [Ord κ]

/-- The value under `k`. -/
def get? (l : List (κ × α)) (k : κ) : Option α := (l.find? fun e => compare k e.1 = .eq).map Prod.snd

/-- The entries other than the one under `k`. -/
def without (l : List (κ × α)) (k : κ) : List (κ × α) := l.filter fun e => compare k e.1 ≠ .eq

/-- How a list of entries replies, and what becomes of it. -/
def answer (l : List (κ × α)) : ClockRequest κ α → ClockReply κ α × List (κ × α)
  | .pushBack k a => (.value (get? l k), without l k ++ [(k, a)])
  | .front => (.entry l.head?, l)
  | .rotate => (.done, l.tail ++ l.head?.toList)
  | .get k => (.value (get? l k), l)
  | .modify k f => (.value (get? l k), l.map fun e => (e.1, if compare k e.1 = .eq then f e.2 else e.2))
  | .remove k => (.value (get? l k), without l k)
  | .keys => (.keys (l.map Prod.fst), l)
  | .size => (.size l.length, l)
  | .isEmpty => (.isEmpty l.isEmpty, l)

variable {l A B : List (κ × α)} {k k' : κ} {a : α}

theorem get?_eq_none (h : ∀ e ∈ l, compare k e.1 ≠ .eq) : get? l k = none := by
  rw [get?, List.find?_eq_none.2 fun e he => by simpa using h e he, Option.map_none]

theorem without_eq_self (h : ∀ e ∈ l, compare k e.1 ≠ .eq) : without l k = l :=
  List.filter_eq_self.2 fun e he => by simpa using h e he

variable [Std.TransOrd κ]

/-- The one entry under a key is found and taken out. -/
theorem get?_without_append (h : Clock.Distinct (A ++ (k', a) :: B)) (hk : compare k k' = .eq) :
    get? (A ++ (k', a) :: B) k = some a ∧ without (A ++ (k', a) :: B) k = A ++ B := by
  obtain ⟨hA, hB⟩ := h.compare_ne
  have hne (l : List (κ × α)) (hl : ∀ e ∈ l, compare k' e.1 ≠ .eq) : ∀ e ∈ l, compare k e.1 ≠ .eq := fun e he => by
    rw [Std.TransCmp.congr_left hk]
    exact hl e he
  constructor
  · rw [get?, List.find?_append, List.find?_eq_none.2 fun e he => by simpa using hne A hA e he, Option.none_or,
      List.find?_cons, decide_eq_true hk, Option.map_some]
  · have hskip : without ((k', a) :: B) k = without B k := List.filter_cons_of_neg (by simpa using hk)
    rw [without, List.filter_append]
    exact congrArg₂ _ (without_eq_self (hne A hA)) (hskip.trans (without_eq_self (hne B hB)))

end Entries

/-! ### The queue -/

namespace Clock

variable [Ord κ] [Std.TransOrd κ]

/-- How a queue replies, and what becomes of it. -/
def answer (q : Clock κ α) : ClockRequest κ α → ClockReply κ α × Clock κ α
  | .pushBack k a => (.value (q.pushBack k a).1, (q.pushBack k a).2)
  | .front => (.entry q.front?, q)
  | .rotate => (.done, q.rotate)
  | .get k => (.value (q.get? k), q)
  | .modify k f => (.value (q.get? k), q.modify k f)
  | .remove k =>
    match q.remove? k with
    | some (a, r) => (.value (some a), r)
    | none => (.value none, q)
  | .keys => (.keys q.keys, q)
  | .size => (.size q.size, q)
  | .isEmpty => (.isEmpty q.isEmpty, q)

variable {q : Clock κ α} {l : List (κ × α)} {k : κ}

namespace Represents

/-- A key stands for one of the entries, or for none of them. -/
theorem entry_cases (h : q.Represents l) (k : κ) :
    (∀ e ∈ l, compare k e.1 ≠ .eq) ∧ q.get? k = none ∨
      ∃ A k' a B, l = A ++ (k', a) :: B ∧ compare k k' = .eq ∧ q.get? k = some a := by
  by_cases hk : ∃ e ∈ l, compare k e.1 = .eq
  · obtain ⟨e, he, heq⟩ := hk
    obtain ⟨A, B, rfl⟩ := List.append_of_mem he
    exact .inr ⟨A, e.1, e.2, B, rfl, heq, h.get?_eq he heq⟩
  · have hne : ∀ e ∈ l, compare k e.1 ≠ .eq := fun e he heq => hk ⟨e, he, heq⟩
    exact .inl ⟨hne, h.get?_eq_none hne⟩

theorem get?_eq_entries (h : q.Represents l) (k : κ) : q.get? k = Entries.get? l k := by
  obtain ⟨hne, hget⟩ | ⟨A, k', a, B, rfl, heq, hget⟩ := h.entry_cases k
  · rw [hget, Entries.get?_eq_none hne]
  · rw [hget, (Entries.get?_without_append h.distinct heq).1]

/-- Taking out yields the value under the key, and the queue without it. -/
theorem remove?_eq_entries (h : q.Represents l) (k : κ) :
    (Entries.get? l k = none ∧ q.remove? k = none ∧ Entries.without l k = l ∧ ∀ e ∈ l, compare k e.1 ≠ .eq) ∨
      ∃ a r, Entries.get? l k = some a ∧ q.remove? k = some (a, r) ∧ r.Represents (Entries.without l k) ∧
        ∀ e ∈ Entries.without l k, compare k e.1 ≠ .eq := by
  obtain ⟨hne, hget⟩ | ⟨A, k', a, B, rfl, heq, hget⟩ := h.entry_cases k
  · exact .inl ⟨Entries.get?_eq_none hne, remove?_eq_none_iff.2 hget, Entries.without_eq_self hne, hne⟩
  · obtain ⟨hfound, hwithout⟩ := Entries.get?_without_append h.distinct heq
    obtain ⟨r, hremove, hr⟩ := h.remove? heq
    refine .inr ⟨a, r, hfound, hremove, hwithout ▸ hr, fun e he => ?_⟩
    simpa using (List.mem_filter.1 he).2

theorem isEmpty_eq (h : q.Represents l) : q.isEmpty = l.isEmpty := by
  have hsize : q.nodes.size = l.length := h.size
  rw [Clock.isEmpty, Std.ExtTreeMap.isEmpty_eq_size_beq_zero, hsize]
  cases l <;> rfl

/-- A queue that holds the entries replies as their list does, and goes on holding what the list goes on with. -/
theorem answer (h : q.Represents l) (r : ClockRequest κ α) :
    (q.answer r).1 = (Entries.answer l r).1 ∧ (q.answer r).2.Represents (Entries.answer l r).2 := by
  cases r with
  | pushBack k a =>
    simp only [Clock.answer, Entries.answer, pushBack]
    obtain ⟨hget, hremove, hwithout, hne⟩ | ⟨old, r, hget, hremove, hr, hne⟩ := h.remove?_eq_entries k
    · rw [hget, hremove, hwithout]
      exact ⟨rfl, h.insert hne a⟩
    · rw [hget, hremove]
      exact ⟨rfl, hr.insert hne a⟩
  | front => exact ⟨congrArg _ h.front?_eq, h⟩
  | rotate =>
    cases l with
    | nil =>
      have hrotate : q.rotate = q := by rw [Clock.rotate, h.head]; rfl
      exact ⟨rfl, by simpa [Clock.answer, Entries.answer, hrotate] using h⟩
    | cons e l => exact ⟨rfl, h.rotate⟩
  | get k => exact ⟨congrArg _ (h.get?_eq_entries k), h⟩
  | modify k f => exact ⟨congrArg _ (h.get?_eq_entries k), h.modify k f⟩
  | remove k =>
    simp only [Clock.answer, Entries.answer]
    obtain ⟨hget, hremove, hwithout, -⟩ | ⟨a, r, hget, hremove, hr, -⟩ := h.remove?_eq_entries k
    · rw [hget, hremove, hwithout]
      exact ⟨rfl, h⟩
    · rw [hget, hremove]
      exact ⟨rfl, hr⟩
  | keys => exact ⟨congrArg _ h.keys_eq, h⟩
  | size => exact ⟨congrArg _ h.size, h⟩
  | isEmpty => exact ⟨congrArg _ h.isEmpty_eq, h⟩

end Represents

/-- From an empty queue on, any requests are replied to as a plain list of entries under different keys would reply to
them. The links of the queue stay in order: they lead from the head through all entries, each once, to the tail, and
back. So the listing of the keys comes to an end and is the keys of the list. -/
theorem replies_as_entries (requests : List (ClockRequest κ α)) :
    let (replies, q) := session Clock.answer (empty : Clock κ α) requests
    let (expected, l) := session Entries.answer [] requests
    replies = expected ∧ q.Represents l ∧ q.Leads q.head (l.map Prod.fst) ∧ q.keys = l.map Prod.fst := by
  obtain ⟨hreplies, hentries⟩ := session_eq (R := Represents) (fun _ _ r h => h.answer r) .empty requests
  exact ⟨hreplies, hentries, hentries.leads, hentries.keys_eq⟩

/-- A queue that goes round, loses the entry in the middle and gets one of its keys again. -/
theorem exists_replies_as_entries :
    let (replies, q) := session Clock.answer (empty : Clock Nat Nat)
      [.pushBack 1 10, .pushBack 2 20, .pushBack 3 30, .rotate, .remove 3, .pushBack 2 21, .front, .keys]
    replies = [.value none, .value none, .value none, .done, .value (some 30), .value (some 20), .entry (some (1, 10)),
      .keys [1, 2]] ∧ q.Represents [(1, 10), (2, 21)] ∧ q.Leads q.head [1, 2] ∧ q.keys = [1, 2] :=
  replies_as_entries [.pushBack 1 10, .pushBack 2 20, .pushBack 3 30, .rotate, .remove 3, .pushBack 2 21, .front, .keys]

end Clock

end DemandPaging
