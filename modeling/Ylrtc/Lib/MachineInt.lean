import Mathlib.Data.Int.Basic
import Mathlib.Tactic.Ring

/-!
# Two's-complement conversions and division that truncates toward zero

The integer facts that a C program's signed arithmetic needs, each stated in
linear form.
-/
namespace Ylrtc.MachineInt

/-- The value of a signed 64-bit result. Signed overflow is taken as wrapping. -/
def int64 (x : ℤ) : ℤ := x.bmod (2^64)

theorem int64_of_range {x : ℤ} (hlo : -2^63 ≤ x) (hhi : x < 2^63) : int64 x = x := by
  rw [int64,Int.bmod_def]
  split <;> omega

/-- The value of a signed 32-bit result. -/
def int32 (x : ℤ) : ℤ := x.bmod (2^32)

theorem int32_of_range {x : ℤ} (hlo : -2147483648 ≤ x) (hhi : x < 2147483648) : int32 x = x := by
  rw [int32,Int.bmod_def]
  split <;> omega

/-- The value is in the range, and a whole number of widths away. -/
theorem int32_spec (x : ℤ) : -2^31 ≤ int32 x ∧ int32 x < 2^31 ∧ (int32 x - x) % 2^32 = 0 := by
  rw [int32,Int.bmod_def]
  split <;> omega

/-- A result of signed arithmetic that is only defined inside the range of its type. -/
def checked (w : ℕ) (x : ℤ) : Option ℤ := if -2^(w-1) ≤ x ∧ x < 2^(w-1) then some x else none

/-- A result of unsigned arithmetic, where wrapping counts as a failure too. -/
def checkedUnsigned (w : ℕ) (x : ℤ) : Option ℤ := if 0 ≤ x ∧ x < 2^w then some x else none

theorem checked_eq_some {w : ℕ} {x : ℤ} (hlo : -2^(w-1) ≤ x) (hhi : x < 2^(w-1)) :
    checked w x = some x := if_pos ⟨hlo,hhi⟩

theorem checked_eq_none {w : ℕ} {x : ℤ} (h : ¬(-2^(w-1) ≤ x ∧ x < 2^(w-1))) :
    checked w x = none := if_neg h

theorem checkedUnsigned_eq_some {w : ℕ} {x : ℤ} (hlo : 0 ≤ x) (hhi : x < 2^w) :
    checkedUnsigned w x = some x := if_pos ⟨hlo,hhi⟩

/-- Past the top of the range by less than the full width, the value wraps once. -/
theorem int64_of_overflow {x : ℤ} (hlo : 2^63 ≤ x) (hhi : x < 2^64) : int64 x = x - 2^64 := by
  rw [int64,Int.bmod_def]
  split <;> omega

theorem tmod_of_nonneg {a b : ℤ} (ha : 0 ≤ a) : a.tmod b = a % b :=
  Int.tmod_eq_emod_of_nonneg ha

theorem tmod_of_neg {a b : ℤ} (ha : a < 0) : a.tmod b = -(-a % b) := by
  have h := Int.tmod_eq_emod_of_nonneg (a := -a) (b := b) (by omega)
  rw [Int.neg_tmod] at h
  omega

theorem tdiv_of_nonneg {a b : ℤ} (ha : 0 ≤ a) : a.tdiv b = a / b :=
  Int.tdiv_eq_ediv_of_nonneg ha

theorem tdiv_of_neg {a b : ℤ} (ha : a < 0) : a.tdiv b = -(-a / b) := by
  have h := Int.tdiv_eq_ediv_of_nonneg (a := -a) (b := b) (by omega)
  rw [Int.neg_tdiv] at h
  omega

/-- The quotient is less than one away from the exact one. -/
theorem tdiv_bounds (a : ℤ) {b : ℤ} (hb : 0 < b) :
    -b < b*a.tdiv b - a ∧ b*a.tdiv b - a < b := by
  have hrest := Int.mul_tdiv_add_tmod a b
  by_cases ha : 0 ≤ a
  · have hmod := tmod_of_nonneg (b := b) ha
    have hlo := Int.emod_nonneg a (Int.ne_of_gt hb)
    have hhi := Int.emod_lt_of_pos a hb
    omega
  · have hmod := tmod_of_neg (b := b) (Int.not_le.mp ha)
    have hlo := Int.emod_nonneg (-a) (Int.ne_of_gt hb)
    have hhi := Int.emod_lt_of_pos (-a) hb
    omega

/-- A conversion to `int16_t` keeps the value exactly on its range. -/
theorem toInt_ofInt16_iff (d : ℤ) :
    (BitVec.ofInt 16 d).toInt = d ↔ -32768 ≤ d ∧ d ≤ 32767 := by
  rw [BitVec.toInt_ofInt,Int.bmod_def]
  split <;> omega

theorem toInt16_range (b : BitVec 16) : -32768 ≤ b.toInt ∧ b.toInt ≤ 32767 := by
  have hlo := b.le_toInt
  have hhi := b.toInt_lt
  omega

end Ylrtc.MachineInt
