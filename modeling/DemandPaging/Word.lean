/-!
Machine words. Addresses, lengths and file positions are natural numbers below `2 ^ 64`; every sum,
difference and product of them that a caller can influence is checked, and says which operation
left the range.
-/

namespace DemandPaging

/-- The operation whose exact result is no 64-bit word. -/
inductive Overflow where
  | add
  | subtract
  | multiply
  deriving DecidableEq

namespace Overflow

/-- The text with which the machine stops at this overflow. -/
def text : Overflow → String
  | add => "attempt to add with overflow"
  | subtract => "attempt to subtract with overflow"
  | multiply => "attempt to multiply with overflow"

end Overflow

namespace Word

/-- The number of words: the least natural number that is none. -/
def limit : Nat := 1 <<< 64

/-- The sum of two words, if it is a word. -/
def add (a b : Nat) : Except Overflow Nat :=
  if a + b < limit then .ok (a + b) else .error .add

/-- The difference of two words, if it is not negative. -/
def sub (a b : Nat) : Except Overflow Nat :=
  if b ≤ a then .ok (a - b) else .error .subtract

/-- The product of two words, if it is a word. -/
def mul (a b : Nat) : Except Overflow Nat :=
  if a * b < limit then .ok (a * b) else .error .multiply

theorem add_eq_ok_iff {a b c : Nat} : add a b = .ok c ↔ a + b < limit ∧ c = a + b := by
  by_cases h : a + b < limit <;> simp [add, h, eq_comm]

theorem sub_eq_ok_iff {a b c : Nat} : sub a b = .ok c ↔ b ≤ a ∧ c = a - b := by
  by_cases h : b ≤ a <;> simp [sub, h, eq_comm]

theorem mul_eq_ok_iff {a b c : Nat} : mul a b = .ok c ↔ a * b < limit ∧ c = a * b := by
  by_cases h : a * b < limit <;> simp [mul, h, eq_comm]

end Word

end DemandPaging
