import DemandPaging.Failure

/-!
A lock around a value. Who takes it gets a guard, through which the value is reached, and has to unlock it
explicitly: a guard that goes away while the lock is held is a panic.
-/

namespace DemandPaging

/-- A value behind a lock, and whether the lock is held. -/
structure Lock (α : Type) where
  value : α
  isHeld : Bool := false

namespace Lock

variable {α : Type}

/-- A free lock around `a`. -/
def new (a : α) : Lock α := ⟨a, false⟩

/-- Takes the lock; there is no result while it is held. -/
def lock? (l : Lock α) : Option (Lock α) :=
  if l.isHeld then none else some { l with isHeld := true }

/-- Stores `a` through the guard of a held lock and returns the value that was there. -/
def replace? (l : Lock α) (a : α) : Option (α × Lock α) :=
  if l.isHeld then some (l.value, { l with value := a }) else none

/-- Releases a held lock. -/
def unlock (l : Lock α) : Lock α := { l with isHeld := false }

/-- Lets the guard of a held lock go without releasing the lock, which stays held. -/
def dropGuard (l : Lock α) : Except Panic Unit :=
  if l.isHeld then .error .guardDropped else .ok ()

/-- Takes the lock, changes the value and releases the lock again; a held lock is left alone. -/
def update (l : Lock α) (f : α → α) : Lock α :=
  match l.lock? with
  | some l => unlock { l with value := f l.value }
  | none => l

/-- The value after `count` updates by `f`, from whatever threads they come: one at a time, each on the value
that the one before left. -/
def updateTimes (l : Lock α) (f : α → α) : Nat → Lock α
  | 0 => l
  | count + 1 => (l.update f).updateTimes f count

end Lock

end DemandPaging
