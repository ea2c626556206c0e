import Std.Data.ExtTreeMap

/-!
The queue of the one-bit clock: entries in order of their insertion, each under a key of its own. The
entry in front can be given a second chance by moving it behind all others, and an entry can be taken
out of any place by its key. The order is kept in links between neighbours, so that no operation but the
listing of all keys depends on the number of entries.
-/

namespace DemandPaging

/-- A value of the queue and its neighbours in the order. -/
structure ClockNode (κ α : Type) where
  value : α
  prev : Option κ
  next : Option κ

/-- A sequence of values under distinct keys. -/
structure Clock (κ α : Type) [Ord κ] where
  nodes : Std.ExtTreeMap κ (ClockNode κ α)
  head : Option κ
  tail : Option κ

namespace Clock

variable {κ α : Type} [Ord κ] [Std.TransOrd κ]

/-- The queue without entries. -/
def empty : Clock κ α := ⟨∅, none, none⟩

instance : Inhabited (Clock κ α) := ⟨empty⟩

/-- The number of entries. -/
def size (q : Clock κ α) : Nat := q.nodes.size

/-- Whether there is no entry. -/
def isEmpty (q : Clock κ α) : Bool := q.nodes.isEmpty

/-- The value under `k`. -/
def get? (q : Clock κ α) (k : κ) : Option α := q.nodes[k]?.map ClockNode.value

/-- The queue with the value under `k`, if there is one, replaced by its image; the order stays. -/
def modify (q : Clock κ α) (k : κ) (f : α → α) : Clock κ α :=
  { q with nodes := q.nodes.modify k fun n => { n with value := f n.value } }

/-- Changes the successor of `k?`; the successor of the place in front of all entries is the head. -/
def setNext (q : Clock κ α) (k? next : Option κ) : Clock κ α :=
  match k? with
  | some k =>
    if k ∈ q.nodes then { q with nodes := q.nodes.modify k fun n => { n with next := next } }
    else { q with head := next }
  | none => { q with head := next }

/-- Changes the predecessor of `k?`; the predecessor of the place behind all entries is the tail. -/
def setPrev (q : Clock κ α) (k? prev : Option κ) : Clock κ α :=
  match k? with
  | some k =>
    if k ∈ q.nodes then { q with nodes := q.nodes.modify k fun n => { n with prev := prev } }
    else { q with tail := prev }
  | none => { q with tail := prev }

/-- Links the entry under `k`, which is stored but not part of the order, behind the last one. -/
def attach (q : Clock κ α) (k : κ) : Clock κ α :=
  let last := q.tail
  let q := { q with tail := some k }.setNext last (some k)
  { q with nodes := q.nodes.modify k fun n => { n with prev := last, next := none } }

/-- Takes the place between `prev` and `next` out of the order. -/
def detach (q : Clock κ α) (prev next : Option κ) : Clock κ α :=
  (q.setPrev next prev).setNext prev next

/-- Takes the entry under `k` out, wherever it stands. -/
def remove? (q : Clock κ α) (k : κ) : Option (α × Clock κ α) :=
  match q.nodes[k]? with
  | none => none
  | some n => some (n.value, { q with nodes := q.nodes.erase k }.detach n.prev n.next)

/-- Puts `v` under `k` behind all entries. An entry that was under `k` goes away, and its value is
returned. -/
def pushBack (q : Clock κ α) (k : κ) (v : α) : Option α × Clock κ α :=
  let (old, q) := match q.remove? k with
    | some (old, q) => (some old, q)
    | none => (none, q)
  (old, { q with nodes := q.nodes.insert k ⟨v, none, none⟩ }.attach k)

/-- The entry under the clock hand. -/
def front? (q : Clock κ α) : Option (κ × α) :=
  match q.head with
  | none => none
  | some k => (q.get? k).map (k, ·)

/-- Moves the entry under the clock hand behind all others. -/
def rotate (q : Clock κ α) : Clock κ α :=
  match q.head with
  | none => q
  | some k =>
    match q.nodes[k]? with
    | none => q
    | some n => (q.detach n.prev n.next).attach k

/-- The keys met on the way from `k?` to the end of the order, at most `fuel` of them. -/
def keysFrom (q : Clock κ α) : Nat → Option κ → List κ
  | 0, _ => []
  | _ + 1, none => []
  | fuel + 1, some k => k :: q.keysFrom fuel ((q.nodes[k]?).bind ClockNode.next)

/-- The keys in clock order, from the clock hand on. -/
def keys (q : Clock κ α) : List κ := q.keysFrom q.size q.head

/-- The entries in clock order, from the clock hand on. -/
def toList (q : Clock κ α) : List (κ × α) :=
  q.keys.filterMap fun k => (q.get? k).map (k, ·)

end Clock

end DemandPaging
