import AcademicAgent.Core.Json.Number
import Mathlib.Algebra.Order.Field.Power
import Mathlib.Tactic.FieldSimp
import Mathlib.Tactic.Linarith

/-!
# The order of numbers

Two decimals are compared by their mantissas once both are scaled to the smaller exponent.
-/

namespace AcademicAgent.Decimal

/-- The mantissa at an exponent that is not larger. -/
def scaled (x : Decimal) (e : Int) : Int := x.mantissa * 10 ^ (x.exponent - e).toNat

/-- `a <= b`. -/
def le (a b : Decimal) : Bool :=
  decide (a.scaled (min a.exponent b.exponent) ≤ b.scaled (min a.exponent b.exponent))

/-- `a < b`. -/
def lt (a b : Decimal) : Bool := !b.le a

def value (x : Decimal) : ℚ := x.mantissa * (10 : ℚ) ^ x.exponent

theorem scaled_eq {x : Decimal} {e : Int} (h : e ≤ x.exponent) :
    (x.scaled e : ℚ) = x.value * (10 : ℚ) ^ (-e) := by
  have hsum : x.exponent + -e = ((x.exponent - e).toNat : Int) := by omega
  rw [scaled, value, mul_assoc, ← zpow_add₀ (by norm_num), hsum, zpow_natCast]
  push_cast
  rfl

theorem le_iff_value (a b : Decimal) : a.le b = true ↔ a.value ≤ b.value := by
  have hpos : (0 : ℚ) < (10 : ℚ) ^ (-(min a.exponent b.exponent)) := zpow_pos (by norm_num) _
  rw [le, decide_eq_true_eq, ← Int.cast_le (R := ℚ), scaled_eq (min_le_left _ _),
    scaled_eq (min_le_right _ _)]
  exact mul_le_mul_iff_left₀ hpos

theorem le_total (a b : Decimal) : (a.le b || b.le a) = true := by
  rw [Bool.or_eq_true, le_iff_value, le_iff_value]
  exact Std.le_total

theorem le_trans {a b c : Decimal} (hab : a.le b = true) (hbc : b.le c = true) : a.le c = true := by
  rw [le_iff_value] at *
  exact hab.trans hbc

end AcademicAgent.Decimal
