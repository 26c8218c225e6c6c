import Mathlib.Algebra.Order.Ring.Int
import Mathlib.Algebra.Order.Ring.Abs

/-!
# Times read off a clock that wraps

A list of times where the first is known modulo a period and each further one by the nearest
step to it. What is missing in each is a whole number of periods.
-/
namespace Ylrtc.WrappingClock
variable (m : ℕ)

def reckonFrom : ℤ → ℤ → List ℤ → List ℤ
  | _,_,[] => []
  | t,r,t'::ts => (r+(t'-t).bmod m)::reckonFrom t' (r+(t'-t).bmod m) ts

/-- The times as they are read. -/
def reckon : List ℤ → List ℤ
  | [] => []
  | t::ts => t % m::reckonFrom m t (t % m) ts

def lostFrom : ℤ → ℤ → List ℤ → List ℤ
  | _,_,[] => []
  | t,k,t'::ts => (k+(t'-t).bdiv m)::lostFrom t' (k+(t'-t).bdiv m) ts

/-- The periods that are missing in each. -/
def lost : List ℤ → List ℤ
  | [] => []
  | t::ts => t / m::lostFrom m t (t / m) ts

theorem reckonFrom_eq (t k : ℤ) (ts : List ℤ) :
    reckonFrom m t (t - m*k) ts = List.zipWith (fun (t k : ℤ) => t - m*k) ts (lostFrom m t k ts) := by
  induction ts generalizing t k with
  | nil => rfl
  | cons t' ts ih =>
      have hstep : t - m*k + (t'-t).bmod m = t' - m*(k+(t'-t).bdiv m) := by
        have h := Int.bmod_add_bdiv (t'-t) m
        rw [Int.mul_add]
        omega
      rw [reckonFrom,lostFrom,List.zipWith_cons_cons,hstep,ih]

theorem reckon_eq (ts : List ℤ) :
    reckon m ts = List.zipWith (fun (t k : ℤ) => t - m*k) ts (lost m ts) := by
  cases ts with
  | nil => rfl
  | cons t ts => rw [reckon,lost,List.zipWith_cons_cons,Int.emod_def,reckonFrom_eq]

theorem length_lostFrom (t k : ℤ) (ts : List ℤ) : (lostFrom m t k ts).length = ts.length := by
  induction ts generalizing t k with
  | nil => rfl
  | cons t' ts ih => rw [lostFrom,List.length_cons,List.length_cons,ih]

theorem length_lost (ts : List ℤ) : (lost m ts).length = ts.length := by
  cases ts with
  | nil => rfl
  | cons t ts => rw [lost,List.length_cons,List.length_cons,length_lostFrom]

variable {m}

theorem reckon_at {ts : List ℤ} {i : ℕ} {r t : ℤ} (hr : (reckon m ts)[i]? = some r)
    (ht : ts[i]? = some t) : ∃ k, (lost m ts)[i]? = some k ∧ r = t - m*k := by
  rw [reckon_eq,List.getElem?_zipWith,ht] at hr
  cases hk : (lost m ts)[i]? with
  | none => simp [hk] at hr
  | some k =>
      rw [hk] at hr
      exact ⟨k,rfl,(Option.some.inj hr).symm⟩

theorem lost_at {ts : List ℤ} {k : ℤ} (h : k ∈ lost m ts) :
    ∃ (i : ℕ) (t : ℤ), ts[i]? = some t ∧ (reckon m ts)[i]? = some (t - m*k) := by
  cases List.mem_iff_getElem?.mp h with
  | intro i hi =>
      have hlt : i < ts.length := by
        rw [← length_lost m ts]
        exact (List.getElem?_eq_some_iff.mp hi).1
      refine ⟨i,ts[i],List.getElem?_eq_getElem hlt,?_⟩
      rw [reckon_eq,List.getElem?_zipWith,hi,List.getElem?_eq_getElem hlt]

/-- Two readings differ as the times do. -/
def SameDifferences (rs ts rs' ts' : List ℤ) : Prop :=
  ∀ (i j : ℕ) (r t r' t' : ℤ), rs[i]? = some r → ts[i]? = some t → rs'[j]? = some r' →
    ts'[j]? = some t' → |(r'-r) - (t'-t)| ≤ 1

/-- Differences across two readings are right, to one unit, exactly when the same number of
periods is missing everywhere. -/
theorem sameDifferences_iff (hm : 1 < m) (ts ts' : List ℤ) :
    SameDifferences (reckon m ts) ts (reckon m ts') ts' ↔
      ∀ k ∈ lost m ts, ∀ k' ∈ lost m ts', k = k' := by
  have hdiff : ∀ t t' k k' : ℤ, (t'-m*k') - (t-m*k) - (t'-t) = m*(k-k') := by
    intro t t' k k'
    rw [Int.mul_sub]
    omega
  constructor
  · intro h k hk k' hk'
    cases lost_at hk with
    | intro i hi =>
        cases hi with
        | intro t hi =>
            cases lost_at hk' with
            | intro j hj =>
                cases hj with
                | intro t' hj =>
                    have hle := h i j _ t _ t' hi.2 hi.1 hj.2 hj.1
                    rw [hdiff] at hle
                    by_contra hne
                    have hone : 1 ≤ |k-k'| := Int.one_le_abs (sub_ne_zero.mpr hne)
                    have hmul : |(m : ℤ)*(k-k')| = m*|k-k'| := by
                      rw [abs_mul,Nat.abs_cast]
                    have hbound : (m : ℤ)*1 ≤ m*|k-k'| :=
                      Int.mul_le_mul_of_nonneg_left hone (Int.natCast_nonneg m)
                    omega
  · intro h i j r t r' t' hr ht hr' ht'
    cases reckon_at hr ht with
    | intro k hk =>
        cases reckon_at hr' ht' with
        | intro k' hk' =>
            have hsame := h k (List.mem_of_getElem? hk.1) k' (List.mem_of_getElem? hk'.1)
            rw [hk.2,hk'.2,hdiff,hsame,Int.sub_self,Int.mul_zero,abs_zero]
            exact Int.one_nonneg

end Ylrtc.WrappingClock
