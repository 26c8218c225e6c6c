import Mathlib.Algebra.Order.Field.Basic
import Mathlib.Tactic.FieldSimp
import Mathlib.Tactic.Linarith
import Mathlib.Tactic.Ring

/-!
# Lines through points

Sums over a list of points, and the line with the least sum of squared distances: its slope is
the covariance over the variance, and there is one unless all points lie above each other.
-/
namespace Ylrtc.LeastSquares
variable {K α : Type} [Field K]

def total (f : α → K) (ps : List α) : K := (ps.map f).sum

theorem total_cons (f : α → K) (p : α) (ps : List α) : total f (p::ps) = f p+total f ps := by
  rw [total,List.map_cons,List.sum_cons]
  rfl

/-- A sum as a loop adds it up. -/
theorem foldl_add (f : α → K) (ps : List α) (a : K) :
    ps.foldl (fun s p => s+f p) a = a+total f ps := by
  induction ps generalizing a with
  | nil => exact (add_zero a).symm
  | cons p ps ih => rw [List.foldl_cons,ih,total_cons,add_assoc]

theorem total_congr {f g : α → K} {ps : List α} (h : ∀ p ∈ ps, f p = g p) :
    total f ps = total g ps :=
  congrArg List.sum (List.map_congr_left h)

def mean (f : α → K) (ps : List α) : K := total f ps/ps.length

/-- The sum of the products of the deviations. -/
def deviations (f g : α → K) (ps : List α) : K :=
  total (fun p => (f p-mean f ps)*(g p-mean g ps)) ps

def slope (x y : α → K) (ps : List α) : K := deviations x y ps/deviations x x ps

/-- The squared distances to a line. -/
def residual (x y : α → K) (ps : List α) (a b : K) : K :=
  total (fun p => (y p-(a+b*x p))^2) ps

theorem total_sub (f : α → K) (c : K) (ps : List α) :
    total (fun p => f p-c) ps = total f ps-ps.length*c := by
  induction ps with
  | nil => simp [total]
  | cons p ps ih =>
      rw [total_cons,total_cons,ih,List.length_cons]
      push_cast
      ring

/-- The squares of a combination of two deviations and a constant. -/
theorem total_square (u v : α → K) (b c : K) (ps : List α) :
    total (fun p => (v p-b*u p+c)^2) ps = total (fun p => v p*v p) ps-
      2*b*total (fun p => u p*v p) ps+b^2*total (fun p => u p*u p) ps+ps.length*c^2+
      2*c*total v ps-2*b*c*total u ps := by
  induction ps with
  | nil => simp [total]
  | cons p ps ih =>
      simp only [total_cons,ih,List.length_cons]
      push_cast
      ring

section Order
variable [LinearOrder K] [IsStrictOrderedRing K]

theorem total_nonneg {f : α → K} {ps : List α} (h : ∀ p ∈ ps, 0 ≤ f p) : 0 ≤ total f ps := by
  induction ps with
  | nil => exact le_refl _
  | cons p ps ih =>
      rw [total_cons]
      exact add_nonneg (h p List.mem_cons_self) (ih fun q hq => h q (List.mem_cons_of_mem p hq))

theorem total_eq_zero {f : α → K} {ps : List α} (h : ∀ p ∈ ps, 0 ≤ f p) :
    total f ps = 0 ↔ ∀ p ∈ ps, f p = 0 := by
  induction ps with
  | nil => simp [total]
  | cons p ps ih =>
      have hrest : ∀ q ∈ ps, 0 ≤ f q := fun q hq => h q (List.mem_cons_of_mem p hq)
      rw [total_cons,add_eq_zero_iff_of_nonneg (h p List.mem_cons_self) (total_nonneg hrest),
        ih hrest,List.forall_mem_cons]

theorem length_ne_zero {ps : List α} (h : ps ≠ []) : (ps.length : K) ≠ 0 :=
  Nat.cast_ne_zero.mpr (mt List.length_eq_zero_iff.mp h)

/-- Deviations from the mean cancel. -/
theorem total_deviation (f : α → K) {ps : List α} (h : ps ≠ []) :
    total (fun p => f p-mean f ps) ps = 0 := by
  have hne := length_ne_zero (K := K) h
  rw [total_sub,mean]
  field_simp
  ring

/-- There is no variance exactly if all points lie above each other. -/
theorem deviations_eq_zero {x : α → K} {ps : List α} :
    deviations x x ps = 0 ↔ ∀ p ∈ ps, ∀ q ∈ ps, x p = x q := by
  rw [deviations,total_eq_zero fun p _ => mul_self_nonneg _]
  constructor
  · intro h p hp q hq
    have hp' := sub_eq_zero.mp (mul_self_eq_zero.mp (h p hp))
    rw [hp',sub_eq_zero.mp (mul_self_eq_zero.mp (h q hq))]
  · intro h p hp
    have hall : total x ps = ps.length*x p := by
      have hzero : total (fun q => x q-x p) ps = 0 :=
        (total_congr fun q hq => sub_eq_zero.mpr (h q hq p hp)).trans (by simp [total])
      rw [total_sub,sub_eq_zero] at hzero
      exact hzero
    have hne := length_ne_zero (K := K) (List.ne_nil_of_mem hp)
    rw [mean,hall,mul_div_cancel_left₀ _ hne,sub_self,zero_mul]

/-- How far any line is from the best one. -/
theorem residual_eq {x y : α → K} {ps : List α} (h : ps ≠ []) (hvar : deviations x x ps ≠ 0)
    (a b : K) : residual x y ps a b =
      residual x y ps (mean y ps-slope x y ps*mean x ps) (slope x y ps)+
        (b-slope x y ps)^2*deviations x x ps+ps.length*(mean y ps-(a+b*mean x ps))^2 := by
  have hexpand (a b : K) : residual x y ps a b = deviations y y ps-2*b*deviations x y ps+
      b^2*deviations x x ps+ps.length*(mean y ps-(a+b*mean x ps))^2 := by
    have hsquare := total_square (fun p => x p-mean x ps) (fun p => y p-mean y ps) b
      (mean y ps-(a+b*mean x ps)) ps
    rw [total_deviation x h,total_deviation y h] at hsquare
    rw [residual,total_congr fun p _ => show (y p-(a+b*x p))^2 =
      (y p-mean y ps-b*(x p-mean x ps)+(mean y ps-(a+b*mean x ps)))^2 by ring,hsquare]
    simp only [deviations]
    ring
  have hslope : deviations x y ps = slope x y ps*deviations x x ps :=
    (div_mul_cancel₀ _ hvar).symm
  rw [hexpand,hexpand,hslope]
  ring

/-- The slope is that of the line with the least squares. -/
theorem residual_le {x y : α → K} {ps : List α} (h : ps ≠ []) (hvar : deviations x x ps ≠ 0)
    (a b : K) :
    residual x y ps (mean y ps-slope x y ps*mean x ps) (slope x y ps) ≤ residual x y ps a b := by
  have hpos : 0 ≤ deviations x x ps := total_nonneg fun p _ => mul_self_nonneg _
  have hfirst := mul_nonneg (sq_nonneg (b-slope x y ps)) hpos
  have hsecond := mul_nonneg (Nat.cast_nonneg (α := K) ps.length)
    (sq_nonneg (mean y ps-(a+b*mean x ps)))
  rw [residual_eq h hvar a b,add_assoc]
  exact le_add_of_nonneg_right (add_nonneg hfirst hsecond)

/-- No other slope does as well. -/
theorem slope_unique {x y : α → K} {ps : List α} (h : ps ≠ []) (hvar : deviations x x ps ≠ 0)
    {a b : K} (hbest : residual x y ps a b ≤
      residual x y ps (mean y ps-slope x y ps*mean x ps) (slope x y ps)) :
    b = slope x y ps := by
  have hpos : 0 < deviations x x ps :=
    lt_of_le_of_ne (total_nonneg fun p _ => mul_self_nonneg _) hvar.symm
  have hsecond := mul_nonneg (Nat.cast_nonneg (α := K) ps.length)
    (sq_nonneg (mean y ps-(a+b*mean x ps)))
  rw [residual_eq h hvar a b] at hbest
  have hzero : (b-slope x y ps)^2*deviations x x ps ≤ 0 := by linarith
  have hsquare : (b-slope x y ps)^2 = 0 :=
    le_antisymm (nonpos_of_mul_nonpos_left hzero hpos) (sq_nonneg _)
  exact sub_eq_zero.mp (pow_eq_zero_iff two_ne_zero |>.mp hsquare)

end Order
end Ylrtc.LeastSquares
