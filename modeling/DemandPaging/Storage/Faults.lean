import DemandPaging.Errno

/-!
What a storage device keeps beside its data: which requests it refuses, and how many it served.
-/

namespace DemandPaging

/-- What becomes of a request. -/
inductive Fate where
  | served
  | refused (e : Errno)
  /-- A read finds the end of the file in front of its block. -/
  | ended
  deriving DecidableEq

/-- The blocks or sectors on which requests fail. A device whose requests fail now and then has a script, which
decides request by request; once it is used up, the lists decide. -/
structure Faults where
  read : List Nat := []
  write : List Nat := []
  /-- Blocks that read as if the file ended in front of them. -/
  eof : List Nat := []
  /-- The error of a refused request. -/
  error : Errno := .ioError
  script : List Fate := []
  /-- On a bounded device, the number of bytes that a file can have at most. -/
  capacity : Option Nat := none

namespace Faults

/-- What becomes of a read of `n`, and what is left of the faults. -/
def onRead (f : Faults) (n : Nat) : Fate × Faults :=
  match f.script with
  | fate :: rest => (fate, { f with script := rest })
  | [] => (if n ∈ f.read then .refused f.error else if n ∈ f.eof then .ended else .served, f)

/-- What becomes of a write of `n`, and what is left of the faults. -/
def onWrite (f : Faults) (n : Nat) : Fate × Faults :=
  match f.script with
  | fate :: rest => (fate, { f with script := rest })
  | [] => (if n ∈ f.write then .refused f.error else .served, f)

/-- Whether a file of `size` bytes is longer than the device can hold. -/
def tooLong (f : Faults) (size : Nat) : Bool := f.capacity.any (· < size)

@[simp] theorem capacity_onRead (f : Faults) (n : Nat) : (f.onRead n).2.capacity = f.capacity := by
  unfold onRead
  split <;> rfl

@[simp] theorem capacity_onWrite (f : Faults) (n : Nat) : (f.onWrite n).2.capacity = f.capacity := by
  unfold onWrite
  split <;> rfl

theorem tooLong_congr {f f' : Faults} (h : f'.capacity = f.capacity) (size : Nat) :
    f'.tooLong size = f.tooLong size := by
  rw [tooLong, h, tooLong]

theorem tooLong_mono {f : Faults} {n m : Nat} (hle : n ≤ m) (h : f.tooLong n) : f.tooLong m := by
  unfold tooLong at *
  rw [Option.any_eq_true] at *
  exact h.imp fun c hc => ⟨hc.1, decide_eq_true (Nat.lt_of_lt_of_le (of_decide_eq_true hc.2) hle)⟩

theorem not_tooLong_max {f : Faults} {n m : Nat} (hn : ¬ f.tooLong n) (hm : ¬ f.tooLong m) :
    ¬ f.tooLong (max n m) := by
  rw [Nat.max_def]
  split
  · exact hm
  · exact hn

end Faults

/-- The requests served so far. -/
structure Traffic where
  reads : Nat := 0
  writes : Nat := 0
  deriving DecidableEq

end DemandPaging
