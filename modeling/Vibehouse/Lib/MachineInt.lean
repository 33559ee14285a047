import Mathlib.Tactic.Lemma
import Mathlib.Order.Basic
import Mathlib.Tactic.Ring

/-! # Fixed-width integer arithmetic

Unsigned and two's complement integers of width `w`, as natural numbers and integers in range,
and the checked, saturating and casting operations of Rust on them (`checked_add`,
`checked_sub`, `checked_mul`, `checked_div`, `checked_rem`, `saturating_add`,
`saturating_sub`, `as` between `u64` and `i64`, `unsigned_abs`). A checked operation is `none` exactly when the
mathematical result leaves the range. -/

namespace MachineInt

/-- The values of an unsigned integer of width `w` are `0 ≤ a < 2 ^ w`. -/
def uMax (w : Nat) : Nat := 2 ^ w - 1

def uCheckedAdd (w a b : Nat) : Option Nat := if a + b < 2 ^ w then some (a + b) else none

def uCheckedSub (a b : Nat) : Option Nat := if b ≤ a then some (a - b) else none

def uCheckedMul (w a b : Nat) : Option Nat := if a * b < 2 ^ w then some (a * b) else none

def uCheckedDiv (a b : Nat) : Option Nat := if b = 0 then none else some (a / b)

def uCheckedRem (a b : Nat) : Option Nat := if b = 0 then none else some (a % b)

def uSaturatingAdd (w a b : Nat) : Nat := min (a + b) (uMax w)

/-- The values of a signed integer of width `w + 1` are `-2 ^ w ≤ a < 2 ^ w`. -/
def sInRange (w : Nat) (a : Int) : Prop := -(2 ^ w : Int) ≤ a ∧ a < 2 ^ w

instance (w : Nat) (a : Int) : Decidable (sInRange w a) := inferInstanceAs (Decidable (_ ∧ _))

/-- Checked addition of signed integers of width `w + 1`. -/
def sCheckedAdd (w : Nat) (a b : Int) : Option Int := if sInRange w (a + b) then some (a + b) else none

/-- Checked subtraction of signed integers of width `w + 1`. -/
def sCheckedSub (w : Nat) (a b : Int) : Option Int := if sInRange w (a - b) then some (a - b) else none

/-- Wrapping reduction into the signed range of width `w + 1` (`wrapping_add` and friends). -/
def sWrap (w : Nat) (a : Int) : Int := (a + 2 ^ w) % 2 ^ (w + 1) - 2 ^ w

/-- `a as iN`, for an unsigned `a` of width `w + 1`: the same bits read in two's complement. -/
def uAsSigned (w a : Nat) : Int := if a < 2 ^ w then a else (a : Int) - 2 ^ (w + 1)

/-- `a as uN` for a signed `a` of width `w`: the same bits read as an unsigned integer. -/
def sAsUnsigned (w : Nat) (a : Int) : Nat := if 0 ≤ a then a.toNat else (a + 2 ^ w).toNat

@[simp] theorem uCheckedAdd_eq_some {w a b c : Nat} :
    uCheckedAdd w a b = some c ↔ a + b < 2 ^ w ∧ c = a + b := by
  by_cases h : a + b < 2 ^ w <;> simp [uCheckedAdd, h, eq_comm]

@[simp] theorem uCheckedSub_eq_some {a b c : Nat} :
    uCheckedSub a b = some c ↔ b ≤ a ∧ c = a - b := by
  by_cases h : b ≤ a <;> simp [uCheckedSub, h, eq_comm]

theorem uCheckedSub_of_le {a b : Nat} (h : b ≤ a) : uCheckedSub a b = some (a - b) := by
  simp [uCheckedSub, h]

@[simp] theorem uCheckedMul_eq_some {w a b c : Nat} :
    uCheckedMul w a b = some c ↔ a * b < 2 ^ w ∧ c = a * b := by
  by_cases h : a * b < 2 ^ w <;> simp [uCheckedMul, h, eq_comm]

@[simp] theorem uCheckedDiv_eq_some {a b c : Nat} :
    uCheckedDiv a b = some c ↔ b ≠ 0 ∧ c = a / b := by
  by_cases h : b = 0 <;> simp [uCheckedDiv, h, eq_comm]

@[simp] theorem uCheckedRem_eq_some {a b c : Nat} :
    uCheckedRem a b = some c ↔ b ≠ 0 ∧ c = a % b := by
  by_cases h : b = 0 <;> simp [uCheckedRem, h, eq_comm]

@[simp] theorem sCheckedAdd_eq_some {w : Nat} {a b c : Int} :
    sCheckedAdd w a b = some c ↔ sInRange w (a + b) ∧ c = a + b := by
  by_cases h : sInRange w (a + b) <;> simp [sCheckedAdd, h, eq_comm]

@[simp] theorem sCheckedSub_eq_some {w : Nat} {a b c : Int} :
    sCheckedSub w a b = some c ↔ sInRange w (a - b) ∧ c = a - b := by
  by_cases h : sInRange w (a - b) <;> simp [sCheckedSub, h, eq_comm]

theorem uSaturatingAdd_of_le {w a b : Nat} (h : a + b ≤ uMax w) : uSaturatingAdd w a b = a + b :=
  Nat.min_eq_left h

end MachineInt
