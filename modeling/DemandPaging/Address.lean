import DemandPaging.Word
import DemandPaging.Hex

/-!
Virtual and physical addresses, the pages they fall into, and the layout of the user half of an
address space. Addresses are ordered as the numbers they are, so that they can serve as keys of
ordered maps.
-/

namespace DemandPaging

/-- The size in bytes of a page, of a frame and of a swap slot. -/
def pageSize : Nat := 4096

/-- A byte address as a program sees it. -/
structure VirtAddr where
  toNat : Nat
  deriving DecidableEq

/-- A byte address of physical memory. -/
structure PhysAddr where
  toNat : Nat
  deriving DecidableEq

/-- The end of the user stack, which grows downwards from here. -/
def stackTop : Nat := 0x47480000

/-- The first address of the kernel half. -/
def kernelBase : Nat := 0x800000000000

namespace VirtAddr

instance : Ord VirtAddr := ⟨fun a b => compare a.toNat b.toNat⟩
instance : LT VirtAddr := ⟨fun a b => a.toNat < b.toNat⟩
instance : LE VirtAddr := ⟨fun a b => a.toNat ≤ b.toNat⟩
instance (a b : VirtAddr) : Decidable (a < b) := inferInstanceAs (Decidable (a.toNat < b.toNat))
instance (a b : VirtAddr) : Decidable (a ≤ b) := inferInstanceAs (Decidable (a.toNat ≤ b.toNat))

theorem ext {a b : VirtAddr} (h : a.toNat = b.toNat) : a = b := by
  cases a; cases b; simp_all

theorem compare_def (a b : VirtAddr) : compare a b = compare a.toNat b.toNat := rfl

instance : Std.TransOrd VirtAddr where
  eq_swap {a b} := by simp only [compare_def]; exact Std.OrientedCmp.eq_swap
  isLE_trans {a b c} h₁ h₂ := by
    simp only [compare_def] at *
    exact Std.TransCmp.isLE_trans h₁ h₂

instance : Std.LawfulEqOrd VirtAddr where
  compare_self := by simp
  eq_of_compare {a b} h := ext (by simpa [compare_def] using h)

/-- Both halves of the 48-bit address space are canonical, the gap between them is not. -/
def IsCanonical (n : Nat) : Prop :=
  n < 1 <<< 47 ∨ (1 <<< 64 - 1 <<< 47 ≤ n ∧ n < Word.limit)

instance (n : Nat) : Decidable (IsCanonical n) := inferInstanceAs (Decidable (_ ∨ _))

/-- The address `n`, if it is canonical. -/
def ofNat? (n : Nat) : Option VirtAddr :=
  if IsCanonical n then some ⟨n⟩ else none

/-- The start of the page that contains `a`. -/
def pageDown (a : VirtAddr) : VirtAddr := ⟨a.toNat / pageSize * pageSize⟩

/-- The start of the first page that begins at `a` or behind it. -/
def pageUp (a : VirtAddr) : Except Overflow VirtAddr := do
  let n ← Word.add a.toNat (pageSize - 1)
  return ⟨n / pageSize * pageSize⟩

/-- The distance of `a` from the start of its page. -/
def offset (a : VirtAddr) : Nat := a.toNat % pageSize

/-- Whether a page starts at `a`. -/
def isPageAligned (a : VirtAddr) : Bool := a.offset == 0

/-- The address `n` bytes behind `a`, as far as words go. -/
def add (a : VirtAddr) (n : Nat) : Except Overflow VirtAddr := (⟨·⟩) <$> Word.add a.toNat n

/-- The address `n` bytes in front of `a`, as far as words go. -/
def sub (a : VirtAddr) (n : Nat) : Except Overflow VirtAddr := (⟨·⟩) <$> Word.sub a.toNat n

/-- The distance from `b` up to `a`. -/
def distance (a b : VirtAddr) : Except Overflow Nat := Word.sub a.toNat b.toNat

/-- The address `n` bytes behind `a`, if there is such a canonical address. -/
def add? (a : VirtAddr) (n : Nat) : Option VirtAddr := ofNat? (a.toNat + n)

/-- The address as messages show it. -/
def text (a : VirtAddr) : String := "Va(" ++ Hex.marked a.toNat ++ ")"

theorem add_eq_ok_iff {a b : VirtAddr} {n : Nat} :
    a.add n = .ok b ↔ a.toNat + n < Word.limit ∧ b = ⟨a.toNat + n⟩ := by
  by_cases h : a.toNat + n < Word.limit <;> simp [add, Word.add, h, Functor.map, Except.map, eq_comm]

theorem pageDown_of_aligned {a : VirtAddr} (h : a.offset = 0) : a.pageDown = a :=
  ext (Nat.div_mul_cancel (Nat.dvd_of_mod_eq_zero h))

@[simp] theorem offset_pageDown (a : VirtAddr) : a.pageDown.offset = 0 := Nat.mul_mod_left ..

@[simp] theorem pageDown_pageDown (a : VirtAddr) : a.pageDown.pageDown = a.pageDown :=
  pageDown_of_aligned a.offset_pageDown

theorem pageDown_add {start k : Nat} (h : start % pageSize + k < pageSize) :
    (⟨start + k⟩ : VirtAddr).pageDown = (⟨start⟩ : VirtAddr).pageDown ∧
    (start + k) % pageSize = start % pageSize + k := by
  have hmod : (start + k) % pageSize = start % pageSize + k := by
    rw [Nat.add_mod, Nat.mod_eq_of_lt (by omega : k < pageSize), Nat.mod_eq_of_lt h]
  refine ⟨ext ?_, hmod⟩
  have hsum := Nat.div_add_mod (start + k) pageSize
  have hstart := Nat.div_add_mod start pageSize
  rw [hmod] at hsum
  simp only [pageDown]
  rw [Nat.mul_comm _ pageSize, Nat.mul_comm _ pageSize]
  omega

end VirtAddr

namespace PhysAddr

instance : Ord PhysAddr := ⟨fun a b => compare a.toNat b.toNat⟩
instance : LT PhysAddr := ⟨fun a b => a.toNat < b.toNat⟩
instance : LE PhysAddr := ⟨fun a b => a.toNat ≤ b.toNat⟩
instance (a b : PhysAddr) : Decidable (a < b) := inferInstanceAs (Decidable (a.toNat < b.toNat))
instance (a b : PhysAddr) : Decidable (a ≤ b) := inferInstanceAs (Decidable (a.toNat ≤ b.toNat))

theorem ext {a b : PhysAddr} (h : a.toNat = b.toNat) : a = b := by
  cases a; cases b; simp_all

theorem compare_def (a b : PhysAddr) : compare a b = compare a.toNat b.toNat := rfl

instance : Std.TransOrd PhysAddr where
  eq_swap {a b} := by simp only [compare_def]; exact Std.OrientedCmp.eq_swap
  isLE_trans {a b c} h₁ h₂ := by
    simp only [compare_def] at *
    exact Std.TransCmp.isLE_trans h₁ h₂

instance : Std.LawfulEqOrd PhysAddr where
  compare_self := by simp
  eq_of_compare {a b} h := ext (by simpa [compare_def] using h)

/-- The address `n`, if physical memory can reach that far. -/
def ofNat? (n : Nat) : Option PhysAddr :=
  if n < 0xffff000000000000 then some ⟨n⟩ else none

/-- The start of the frame that contains `a`. -/
def pageDown (a : PhysAddr) : PhysAddr := ⟨a.toNat / pageSize * pageSize⟩

/-- The start of the first frame that begins at `a` or behind it. -/
def pageUp (a : PhysAddr) : Except Overflow PhysAddr := do
  let n ← Word.add a.toNat (pageSize - 1)
  return ⟨n / pageSize * pageSize⟩

/-- The distance of `a` from the start of its frame. -/
def offset (a : PhysAddr) : Nat := a.toNat % pageSize

/-- The address `n` bytes behind `a`, as far as words go. -/
def add (a : PhysAddr) (n : Nat) : Except Overflow PhysAddr := (⟨·⟩) <$> Word.add a.toNat n

/-- The address `n` bytes in front of `a`, as far as words go. -/
def sub (a : PhysAddr) (n : Nat) : Except Overflow PhysAddr := (⟨·⟩) <$> Word.sub a.toNat n

/-- The distance from `b` up to `a`. -/
def distance (a b : PhysAddr) : Except Overflow Nat := Word.sub a.toNat b.toNat

/-- The address as messages show it. -/
def text (a : PhysAddr) : String := "Pa(" ++ Hex.marked a.toNat ++ ")"

end PhysAddr

end DemandPaging
