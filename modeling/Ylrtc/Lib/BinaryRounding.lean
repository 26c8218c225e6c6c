import Mathlib.Algebra.Order.Archimedean.Basic
import Mathlib.Data.Int.Log
import Mathlib.Data.Rat.Floor
import Mathlib.Tactic.Linarith
import Mathlib.Tactic.NormNum

/-!
# Rationals as binary floating-point numbers

Rounding to a number of significant bits, to the nearest and to even where two are as near,
where no exponent is too small or too large. A result is bounded by each number of the format
that bounds what is rounded.
-/
namespace Ylrtc.BinaryRounding

/-- The nearest integer. -/
def roundEven (x : ℚ) : ℤ :=
  if 2*Int.fract x < 1 ∨ 2*Int.fract x = 1 ∧ ⌊x⌋%2 = 0 then ⌊x⌋ else ⌊x⌋+1

/-- The value of the last of `p` places. -/
def ulp (p : ℕ) (x : ℚ) : ℚ := 2^(Int.log 2 |x|+1-p)

def nearest (p : ℕ) (x : ℚ) : ℚ := roundEven (x/ulp p x)*ulp p x

/-- What a conversion to an integer keeps. -/
def truncate (x : ℚ) : ℤ := x.num.tdiv x.den

/-- The nonnegative numbers of `p` significant bits. -/
def InFormat (p : ℕ) (y : ℚ) : Prop := ∃ (k : ℕ) (e : ℤ), k < 2^p ∧ y = k*2^e

/-! ### Integers -/

theorem roundEven_le {x : ℚ} {n : ℤ} (h : x ≤ n) : roundEven x ≤ n := by
  have hfloor : ⌊x⌋ ≤ n := Int.cast_le.mp ((Int.floor_le x).trans h)
  rw [roundEven]
  split
  case isTrue => exact hfloor
  case isFalse hfract =>
    have hne : ⌊x⌋ ≠ n := by
      intro heq
      have hzero : Int.fract x = 0 := by
        have hpos := Int.fract_nonneg x
        rw [Int.fract,heq] at hpos ⊢
        linarith
      exact hfract (.inl (by rw [hzero]; norm_num))
    omega

theorem le_roundEven {x : ℚ} {n : ℤ} (h : n ≤ x) : n ≤ roundEven x := by
  have hfloor : n ≤ ⌊x⌋ := Int.le_floor.mpr h
  rw [roundEven]
  split <;> omega

theorem truncate_of_nonneg {x : ℚ} (h : 0 ≤ x) : truncate x = ⌊x⌋ := by
  rw [truncate,Int.tdiv_eq_ediv_of_nonneg (Rat.num_nonneg.mpr h),Rat.floor_def']

/-- A result between two integers that follow each other. -/
theorem truncate_eq {x : ℚ} {n : ℕ} (hlo : (n : ℚ) ≤ x) (hhi : x < n+1) : truncate x = n := by
  rw [truncate_of_nonneg ((Nat.cast_nonneg n).trans hlo),Int.floor_eq_iff]
  exact ⟨by exact_mod_cast hlo,by exact_mod_cast hhi⟩

/-! ### Formats -/

section Format
variable {p : ℕ} {x y : ℚ}

theorem InFormat.nonneg (h : InFormat p y) : 0 ≤ y := by
  obtain ⟨k,e,_,rfl⟩ := h
  exact mul_nonneg (Nat.cast_nonneg k) (zpow_nonneg (by norm_num) e)

theorem inFormat_zero : InFormat p 0 := ⟨0,0,Nat.two_pow_pos p,by norm_num⟩

theorem inFormat_two_zpow (hp : 0 < p) (e : ℤ) : InFormat p (2^e) :=
  ⟨1,e,Nat.one_lt_two_pow (Nat.ne_of_gt hp),by norm_num⟩

/-- A fraction with a power of two. -/
theorem inFormat_div {k : ℕ} (h : k < 2^p) (j : ℕ) : InFormat p (k/2^j) :=
  ⟨k,-j,h,by rw [zpow_neg,zpow_natCast,div_eq_mul_inv]⟩

/-- A number of the format is a multiple of the last place of each power of two below it. -/
theorem InFormat.eq_mul (h : InFormat p y) {e : ℤ} (hle : 2^e ≤ y) :
    ∃ n : ℤ, y = n*2^(e+1-p) := by
  obtain ⟨k,f,hk,rfl⟩ := h
  have hexponent : e+1-p ≤ f := by
    by_contra hlt
    have hsmall : (k : ℚ)*2^f < 2^(p : ℤ)*2^f := by
      have hcast : (k : ℚ) < 2^(p : ℤ) := by
        rw [zpow_natCast]
        exact_mod_cast hk
      exact mul_lt_mul_of_pos_right hcast (zpow_pos (by norm_num) f)
    rw [← zpow_add₀ (by norm_num)] at hsmall
    have hpower : (2 : ℚ)^((p : ℤ)+f) ≤ 2^e := zpow_le_zpow_right₀ (by norm_num) (by omega)
    linarith
  refine ⟨k*2^(f-(e+1-p)).toNat,?_⟩
  have hsplit : (2 : ℚ)^f = 2^(f-(e+1-p)).toNat*2^(e+1-p) := by
    rw [← zpow_natCast,Int.toNat_of_nonneg (by omega),← zpow_add₀ (by norm_num)]
    congr 1
    omega
  rw [hsplit]
  push_cast
  ring

/-- The power of two at or below a positive number. -/
theorem two_zpow_log_le (hx : 0 < x) : 2^Int.log 2 |x| ≤ x := by
  have hlog := Int.zpow_log_le_self (b := 2) (by norm_num) hx
  rw [abs_of_pos hx]
  exact_mod_cast hlog

theorem ulp_pos (p : ℕ) (x : ℚ) : 0 < ulp p x := zpow_pos (by norm_num) _

theorem nearest_zero (p : ℕ) : nearest p 0 = 0 := by
  rw [nearest,zero_div]
  have hround : roundEven 0 = 0 := by decide +kernel
  rw [hround,Int.cast_zero,zero_mul]

theorem nearest_le (hx : 0 ≤ x) (hy : InFormat p y) (h : x ≤ y) : nearest p x ≤ y := by
  cases hx.eq_or_lt with
  | inl hzero =>
      rw [← hzero,nearest_zero]
      exact hy.nonneg
  | inr hpos =>
      obtain ⟨n,hn⟩ := hy.eq_mul ((two_zpow_log_le hpos).trans h)
      change y = n*ulp p x at hn
      rw [nearest,hn]
      apply mul_le_mul_of_nonneg_right _ (ulp_pos p x).le
      apply Int.cast_le.mpr
      apply roundEven_le
      rwa [div_le_iff₀ (ulp_pos p x),← hn]

theorem le_nearest (hp : 0 < p) (hx : 0 ≤ x) (hy : InFormat p y) (h : y ≤ x) :
    y ≤ nearest p x := by
  cases hx.eq_or_lt with
  | inl hzero => rwa [← hzero,nearest_zero,hzero]
  | inr hpos =>
      -- A number of the format below the power of two is below what that power bounds.
      have habove : ∀ z, InFormat p z → 2^Int.log 2 |x| ≤ z → z ≤ x → z ≤ nearest p x := by
        intro z hz hpower hle
        obtain ⟨n,hn⟩ := hz.eq_mul hpower
        change z = n*ulp p x at hn
        rw [nearest,hn]
        apply mul_le_mul_of_nonneg_right _ (ulp_pos p x).le
        apply Int.cast_le.mpr
        apply le_roundEven
        rwa [le_div_iff₀ (ulp_pos p x),← hn]
      by_cases hpower : 2^Int.log 2 |x| ≤ y
      · exact habove y hy hpower h
      · exact (le_of_not_ge hpower).trans
          (habove _ (inFormat_two_zpow hp _) le_rfl (two_zpow_log_le hpos))

theorem nearest_nonneg (hp : 0 < p) (hx : 0 ≤ x) : 0 ≤ nearest p x :=
  le_nearest hp hx inFormat_zero hx

end Format

example : nearest 24 16777217 = 16777216 ∧ nearest 24 16777219 = 16777220 := by decide +kernel

end Ylrtc.BinaryRounding
