import Mathlib.Algebra.Group.Nat.Defs
import Mathlib.Algebra.Order.Group.Int

/-!
# Integers as binary floating-point numbers

Rounding to a number of significant bits, to the nearest and to even where two are as near.
Between integers, where no exponent is too small.
-/
namespace Ylrtc.FloatRounding

/-- The nearest number of `p` significant bits. -/
def roundNatTo (p n : ℕ) : ℕ :=
  if n < 2^p then n
  else
    let step := 2^(n.log2+1-p)
    if step < 2*(n%step) ∨ 2*(n%step) = step ∧ n/step%2 = 1 then (n/step+1)*step
    else n/step*step

def roundTo (p : ℕ) (x : ℤ) : ℤ := x.sign*(roundNatTo p x.natAbs : ℕ)

theorem roundTo_natCast (p n : ℕ) : roundTo p n = roundNatTo p n := by
  rw [roundTo,Int.natAbs_natCast]
  cases n with
  | zero =>
      have hzero : roundNatTo p 0 = 0 := by
        rw [roundNatTo,if_pos (Nat.two_pow_pos p)]
      rw [hzero,Int.natCast_zero,Int.mul_zero]
  | succ n =>
      rw [Int.sign_eq_one_of_pos (Int.natCast_pos.mpr (Nat.succ_pos n)),Int.one_mul]

/-- Powers of two are bounds that rounding keeps. -/
theorem roundNatTo_le_two_pow {p n k : ℕ} (hp : 0 < p) (h : n ≤ 2^k) : roundNatTo p n ≤ 2^k := by
  unfold roundNatTo
  by_cases hsmall : n < 2^p
  · rw [if_pos hsmall]
    exact h
  rw [if_neg hsmall]
  have hne : n ≠ 0 := by
    have hpos := Nat.two_pow_pos p
    omega
  have hlog : p ≤ n.log2 := (Nat.le_log2 hne).mpr (Nat.le_of_not_lt hsmall)
  have hstep : 0 < 2^(n.log2+1-p) := Nat.two_pow_pos _
  have hdown : n/2^(n.log2+1-p)*2^(n.log2+1-p) ≤ n := Nat.div_mul_le_self _ _
  by_cases hpower : n = 2^k
  · have hexact : n%2^(n.log2+1-p) = 0 := by
      apply Nat.mod_eq_zero_of_dvd
      have hk : n.log2 = k := by rw [hpower,Nat.log2_two_pow]
      rw [hk,hpower]
      exact Nat.pow_dvd_pow 2 (by omega)
    simp only [hexact,Nat.mul_zero,Nat.not_lt_zero,false_or]
    rw [if_neg (by omega)]
    omega
  · have hupper : 2^(n.log2+1) ≤ 2^k :=
      Nat.pow_le_pow_right (by decide) ((Nat.log2_lt hne).mpr (by omega))
    have hsplit : 2^p*2^(n.log2+1-p) = 2^(n.log2+1) := by
      rw [← Nat.pow_add]
      congr 1
      omega
    have hquotient : n/2^(n.log2+1-p) < 2^p := by
      rw [Nat.div_lt_iff_lt_mul hstep,hsplit]
      exact Nat.lt_log2_self
    have hup : (n/2^(n.log2+1-p)+1)*2^(n.log2+1-p) ≤ 2^(n.log2+1) := by
      rw [← hsplit]
      exact Nat.mul_le_mul_right _ hquotient
    simp only
    split
    · omega
    · omega

theorem roundTo_le_two_pow {p k : ℕ} (hp : 0 < p) {x : ℤ} (hx : 0 ≤ x) (h : x ≤ 2^k) :
    0 ≤ roundTo p x ∧ roundTo p x ≤ 2^k := by
  have hcast : x = (x.toNat : ℤ) := (Int.toNat_of_nonneg hx).symm
  rw [hcast] at h ⊢
  rw [roundTo_natCast]
  exact ⟨Int.natCast_nonneg _,by exact_mod_cast roundNatTo_le_two_pow hp (by exact_mod_cast h)⟩

example : roundTo 24 16777217 = 16777216 ∧ roundTo 24 16777219 = 16777220 := by decide

end Ylrtc.FloatRounding
