import Ylrtc.Base.SequenceNumber
import Ylrtc.Lib.MachineInt
import Ylrtc.Lib.Run
import Mathlib.Tactic.Linarith

/-!
# Runs of the sequence-number unwrapper

`SeqNumUnwrapper` of `base/sequence_number_util.h` over whole sequences of calls, at every
width. A sequence of integers whose steps stay below half the range comes back from its
residues up to one constant, in unbounded integers and in the `int64_t` of the code. The
last part compares `Unwrap` with the path through `UnwrapWithoutUpdate` and `UpdateLast`.
-/
namespace Ylrtc.SequenceNumber
open MachineInt Run
variable {w : ℕ}

section Comparison

theorem two_pow_half (hw : 0 < w) : 2 ^ w = 2 * 2 ^ (w-1) := by
  rw [← pow_succ',Nat.sub_add_cancel hw]

theorem toNat_half (hw : 0 < w) : (BitVec.ofNat w (2^(w-1))).toNat = 2^(w-1) := by
  rw [BitVec.toNat_ofNat]
  apply Nat.mod_eq_of_lt
  exact Nat.pow_lt_pow_right (by omega) (by omega)

/-- What `SeqNumGE` decides about the distance ahead, at every width. -/
theorem seqNumGE_half (hw : 0 < w) (a b : BitVec w) :
    seqNumGE a b = true ↔
      (a - b).toNat < 2^(w-1) ∨ ((a - b).toNat = 2^(w-1) ∧ b.toNat < a.toNat) := by
  have hhalf := toNat_half hw
  unfold seqNumGE
  simp only
  split <;> rename_i h
  · have hd : (a - b).toNat = 2^(w-1) := by rw [h,hhalf]
    simp only [decide_eq_true_eq,BitVec.lt_def,hd,lt_self_iff_false,true_and,false_or]
  · have hd : (a - b).toNat ≠ 2^(w-1) := by
      intro e
      apply h
      rw [← BitVec.toNat_inj,hhalf,e]
    simp only [decide_eq_true_eq,BitVec.lt_def,hhalf,hd,false_and,or_false]

/-- `SeqNumGE` as C++ evaluates it. Operands narrower than `int` are promoted, and
`a - b == maxDist` compares a difference that may be negative. -/
def promotedSeqNumGE (a b : BitVec w) : Bool :=
  let maxDist : ℕ := 2^(w-1)
  let difference : ℤ := if w < 32 then (a.toNat : ℤ) - b.toNat else (a - b).toNat
  if difference = maxDist then decide (b < a) else decide ((a - b).toNat < maxDist)

theorem toNat_sub_ahead {a b : BitVec w} (h : b.toNat ≤ a.toNat) :
    (a - b).toNat = a.toNat - b.toNat := by
  have ha := a.isLt
  rw [BitVec.toNat_sub,show 2^w - b.toNat + a.toNat = (a.toNat - b.toNat) + 2^w by omega,
    Nat.add_mod_right]
  exact Nat.mod_eq_of_lt (by omega)

theorem toNat_sub_behind {a b : BitVec w} (h : a.toNat < b.toNat) :
    (a - b).toNat = 2^w - b.toNat + a.toNat := by
  have hb := b.isLt
  rw [BitVec.toNat_sub]
  exact Nat.mod_eq_of_lt (by omega)

/-- A promoted difference of minus half the range misses the first test; the second
answers what the first would have. -/
theorem promotedSeqNumGE_eq (hw : 0 < w) (a b : BitVec w) :
    promotedSeqNumGE a b = seqNumGE a b := by
  have ha := a.isLt
  have hb := b.isLt
  have hpow := two_pow_half hw
  rw [Bool.eq_iff_iff,seqNumGE_half hw]
  unfold promotedSeqNumGE
  simp only [BitVec.lt_def]
  cases Nat.lt_or_ge a.toNat b.toNat with
  | inl h =>
      have hd := toNat_sub_behind h
      generalize (a - b).toNat = d at *
      generalize 2^(w-1) = half at *
      split_ifs <;> simp only [decide_eq_true_eq] <;> omega
  | inr h =>
      have hd := toNat_sub_ahead h
      generalize (a - b).toNat = d at *
      generalize 2^(w-1) = half at *
      split_ifs <;> simp only [decide_eq_true_eq] <;> omega

end Comparison

section Run

/-- `Unwrap` in the arithmetic of `int64_t`. -/
def SeqNumUnwrapper.unwrapInt64 (u : SeqNumUnwrapper w) (value : BitVec w) :
    ℤ × SeqNumUnwrapper w :=
  let lastUnwrapped : ℤ :=
    match u.lastValue with
    | none => int64 value.toNat
    | some last =>
        let advanced := int64 (u.lastUnwrapped + (value - last).toNat)
        if promotedSeqNumGE value last then advanced else int64 (advanced - 2^w)
  (lastUnwrapped,⟨lastUnwrapped,some value⟩)

/-- The signed offset that `Unwrap` adds, at every width. -/
def offset (value last : BitVec w) : ℤ :=
  if seqNumGE value last then (value - last).toNat else (value - last).toNat - 2^w

theorem SeqNumUnwrapper.unwrap_offset (u : SeqNumUnwrapper w) (value : BitVec w) {last : BitVec w}
    (h : u.lastValue = some last) :
    (u.unwrap value).1 = u.lastUnwrapped + offset value last := by
  unfold unwrap offset
  simp only [h]
  split <;> ring

theorem abs_offset_le (hw : 0 < w) (value last : BitVec w) :
    |offset value last| ≤ 2^(w-1) := by
  have hge := seqNumGE_half hw value last
  have hlt := (value - last).isLt
  have hpow := two_pow_half hw
  have hpow' : (2^w : ℤ) = 2 * 2^(w-1) := by exact_mod_cast hpow
  rw [abs_le]
  unfold offset
  generalize (value - last).toNat = d at *
  split <;> rename_i h
  · have hd : d ≤ 2^(w-1) := by
      have := hge.mp h
      omega
    have hd' : (d : ℤ) ≤ 2^(w-1) := by exact_mod_cast hd
    constructor <;> linarith
  · have hd : 2^(w-1) ≤ d := by
      have : ¬ d < 2^(w-1) := fun hd => h (hge.mpr (Or.inl hd))
      omega
    have hd' : (2^(w-1) : ℤ) ≤ d := by exact_mod_cast hd
    have hlt' : (d : ℤ) < 2^w := by exact_mod_cast hlt
    constructor <;> linarith

theorem offset_ofInt_dvd (x y : ℤ) :
    (2^w : ℤ) ∣ offset (BitVec.ofInt w x) (BitVec.ofInt w y) - (x - y) := by
  have hsub : ((BitVec.ofInt w x - BitVec.ofInt w y).toNat : ℤ) = (x - y) % 2^w := by
    have hpos : (2^w : ℤ) ≠ 0 := by positivity
    rw [BitVec.sub_eq_add_neg,← BitVec.ofInt_neg,← BitVec.ofInt_add,← sub_eq_add_neg,
      BitVec.toNat_ofInt]
    push_cast
    exact Int.toNat_of_nonneg (Int.emod_nonneg _ hpos)
  have hdiv : (2^w : ℤ) ∣ (x - y) % 2^w - (x - y) := by
    rw [Int.emod_def]
    exact ⟨-((x - y) / 2^w),by ring⟩
  unfold offset
  rw [hsub]
  split
  · exact hdiv
  · rw [show (x - y) % 2^w - 2^w - (x - y) = ((x - y) % 2^w - (x - y)) - 2^w by ring]
    exact Int.dvd_sub hdiv (Int.dvd_refl _)

/-- Two integers less than half the range apart differ by the offset of their residues. -/
theorem offset_ofInt (hw : 0 < w) {x y : ℤ} (h : |x - y| < 2^(w-1)) :
    offset (BitVec.ofInt w x) (BitVec.ofInt w y) = x - y := by
  have hpow : (2^w : ℤ) = 2 * 2^(w-1) := by exact_mod_cast two_pow_half hw
  have hoff := abs_offset_le hw (BitVec.ofInt w x) (BitVec.ofInt w y)
  have hdvd := offset_ofInt_dvd (w := w) x y
  have hsmall : |offset (BitVec.ofInt w x) (BitVec.ofInt w y) - (x - y)| < 2^w := by
    have := abs_sub (offset (BitVec.ofInt w x) (BitVec.ofInt w y)) (x - y)
    linarith
  have := Int.eq_zero_of_abs_lt_dvd hdvd hsmall
  linarith

/-- An unwrapper that starts empty, after the first `n` values of a sequence. -/
def unwrapperAfter (unwrap : SeqNumUnwrapper w → BitVec w → ℤ × SeqNumUnwrapper w)
    (values : ℕ → BitVec w) : ℕ → SeqNumUnwrapper w
  | 0 => {}
  | n+1 => (unwrap (unwrapperAfter unwrap values n) (values n)).2

/-- What the call with value number `i` returns. -/
def unwrappedAt (unwrap : SeqNumUnwrapper w → BitVec w → ℤ × SeqNumUnwrapper w)
    (values : ℕ → BitVec w) (i : ℕ) : ℤ :=
  (unwrap (unwrapperAfter unwrap values i) (values i)).1

theorem SeqNumUnwrapper.unwrap_keeps (u : SeqNumUnwrapper w) (value : BitVec w) :
    (u.unwrap value).2 = ⟨(u.unwrap value).1,some value⟩ := rfl

theorem SeqNumUnwrapper.unwrapInt64_keeps (u : SeqNumUnwrapper w) (value : BitVec w) :
    (u.unwrapInt64 value).2 = ⟨(u.unwrapInt64 value).1,some value⟩ := rfl

/-- `int64_t` holds the unbounded number modulo 2^64: step. -/
theorem SeqNumUnwrapper.unwrapInt64_step (hw : 0 < w) (u v : SeqNumUnwrapper w) (value : BitVec w)
    (hvalue : v.lastValue = u.lastValue) (hlast : v.lastUnwrapped = int64 u.lastUnwrapped) :
    (v.unwrapInt64 value).1 = int64 (u.unwrap value).1 := by
  unfold unwrapInt64 unwrap
  simp only [hvalue,hlast]
  cases u.lastValue with
  | none => rfl
  | some last =>
      simp only [promotedSeqNumGE_eq hw,int64]
      split
      · rw [Int.bmod_add_bmod]
      · rw [Int.bmod_add_bmod,Int.bmod_sub_bmod]

theorem unwrapInt64_run (hw : 0 < w) (values : ℕ → BitVec w) (i : ℕ) :
    unwrappedAt SeqNumUnwrapper.unwrapInt64 values i =
      int64 (unwrappedAt SeqNumUnwrapper.unwrap values i) := by
  induction i with
  | zero => exact SeqNumUnwrapper.unwrapInt64_step hw {} {} (values 0) rfl rfl
  | succ i ih =>
      apply SeqNumUnwrapper.unwrapInt64_step hw
      · rw [unwrapperAfter,unwrapperAfter,SeqNumUnwrapper.unwrap_keeps,
          SeqNumUnwrapper.unwrapInt64_keeps]
      · rw [unwrapperAfter,unwrapperAfter,SeqNumUnwrapper.unwrap_keeps,
          SeqNumUnwrapper.unwrapInt64_keeps]
        exact ih

/-- The last residue and the last result: step. -/
theorem SeqNumUnwrapper.unwrap_residue (hw : 0 < w) (u : SeqNumUnwrapper w) {x y c : ℤ}
    (hvalue : u.lastValue = some (BitVec.ofInt w y)) (hlast : u.lastUnwrapped = y - c)
    (h : |x - y| < 2^(w-1)) : (u.unwrap (BitVec.ofInt w x)).1 = x - c := by
  rw [u.unwrap_offset _ hvalue,hlast,offset_ofInt hw h]
  ring

theorem unwrap_run_residue (hw : 0 < w) {x : ℕ → ℤ} (hx : ∀ i, |x (i+1) - x i| < 2^(w-1))
    (i : ℕ) :
    unwrappedAt SeqNumUnwrapper.unwrap (fun j => BitVec.ofInt w (x j)) i =
      x i - (x 0 - x 0 % 2^w) := by
  induction i with
  | zero =>
      have hpos : (2^w : ℤ) ≠ 0 := by positivity
      have hfirst : ((BitVec.ofInt w (x 0)).toNat : ℤ) = x 0 % 2^w := by
        rw [BitVec.toNat_ofInt]
        push_cast
        exact Int.toNat_of_nonneg (Int.emod_nonneg _ hpos)
      change ((BitVec.ofInt w (x 0)).toNat : ℤ) = _
      rw [hfirst]
      ring
  | succ i ih => exact SeqNumUnwrapper.unwrap_residue hw _ rfl ih (hx i)

/-- The residues of a sequence of integers whose steps stay below half the range come back
as that sequence, less the multiple of the range below its first element; in `int64_t` they
do modulo 2^64, so exactly while the result fits. -/
theorem unwrapped_residues (hw : 0 < w) (x : ℕ → ℤ) (hx : ∀ i, |x (i+1) - x i| < 2^(w-1))
    (i : ℕ) :
    unwrappedAt SeqNumUnwrapper.unwrap (fun j => BitVec.ofInt w (x j)) i =
        x i - (x 0 - x 0 % 2^w) ∧
      unwrappedAt SeqNumUnwrapper.unwrapInt64 (fun j => BitVec.ofInt w (x j)) i =
        int64 (x i - (x 0 - x 0 % 2^w)) := by
  have hrun := unwrap_run_residue hw hx i
  constructor
  · exact hrun
  · rw [unwrapInt64_run hw,hrun]

/-- Backward through zero at eight bits: 5, -3, -11 come back as they are. -/
theorem unwrapped_residues_backward :
    unwrappedAt SeqNumUnwrapper.unwrap (fun j => BitVec.ofInt 8 (5 - 8 * (j : ℤ))) 2 =
        5 - 8 * ((2 : ℕ) : ℤ) -
          ((5 - 8 * ((0 : ℕ) : ℤ)) - (5 - 8 * ((0 : ℕ) : ℤ)) % 2^8) ∧
      unwrappedAt SeqNumUnwrapper.unwrapInt64 (fun j => BitVec.ofInt 8 (5 - 8 * (j : ℤ))) 2 =
        int64 (5 - 8 * ((2 : ℕ) : ℤ) -
          ((5 - 8 * ((0 : ℕ) : ℤ)) - (5 - 8 * ((0 : ℕ) : ℤ)) % 2^8)) := by
  apply unwrapped_residues (by decide) (fun j => 5 - 8 * (j : ℤ))
  intro i
  simp only [Nat.cast_add,Nat.cast_one]
  rw [show (5 : ℤ) - 8 * (i + 1) - (5 - 8 * i) = -8 by ring]
  decide

end Run
section Tentative

/-- `Unwrap`, which leaves the tentative value alone. -/
def TentativeUnwrapper.unwrap (u : TentativeUnwrapper w) (value : BitVec w) :
    ℤ × TentativeUnwrapper w :=
  let direct := u.toSeqNumUnwrapper.unwrap value
  (direct.1,{ u with toSeqNumUnwrapper := direct.2 })

inductive Call (w : ℕ) where
  | unwrap (value : BitVec w)
  | unwrapWithoutUpdate (value : BitVec w)
  | updateLast

/-- An unwrapper and the last number it returned, which a caller passes to `UpdateLast`. -/
structure Caller (w : ℕ) where
  unwrapper : TentativeUnwrapper w := {}
  lastResult : Option ℤ := none

def Caller.step (c : Caller w) : Call w → Caller w
  | .unwrap value =>
      let r := c.unwrapper.unwrap value
      ⟨r.2,some r.1⟩
  | .unwrapWithoutUpdate value =>
      let r := c.unwrapper.unwrapWithoutUpdate value
      ⟨r.2,some r.1⟩
  | .updateLast =>
      match c.lastResult with
      | none => c
      | some last => ⟨c.unwrapper.updateLast last,some last⟩

/-- The numbers that a sequence of calls returns, `UpdateLast` repeating its argument. -/
def Caller.results (c : Caller w) : List (Call w) → List (Option ℤ)
  | [] => []
  | call::calls => (c.step call).lastResult :: (c.step call).results calls

/-- The unwrapper after any mix of calls. -/
def reached (calls : List (Call w)) : TentativeUnwrapper w :=
  (run Caller.step {} calls).unwrapper

/-- `UnwrapWithoutUpdate` is `Unwrap` without the update: it returns the same number, leaves
the results of later calls alone, and `UpdateLast` of its result makes up the difference. -/
structure Agrees (u : TentativeUnwrapper w) (value : BitVec w) : Prop where
  result : (u.unwrapWithoutUpdate value).1 = (u.unwrap value).1
  later : ∀ calls, Caller.results ⟨(u.unwrapWithoutUpdate value).2,none⟩ calls =
    Caller.results ⟨u,none⟩ calls
  update : (u.unwrapWithoutUpdate value).2.updateLast (u.unwrapWithoutUpdate value).1 =
    (u.unwrap value).2

theorem offset_eq_zero {a b : BitVec w} (h : offset a b = 0) : a = b := by
  have hlt := (a - b).isLt
  unfold offset at h
  split at h
  · have hzero : a - b = 0#w := by
      apply BitVec.eq_of_toNat_eq
      rw [BitVec.toNat_ofNat,Nat.zero_mod]
      exact_mod_cast h
    rw [← BitVec.sub_add_cancel a b,hzero,BitVec.zero_add]
  · have hlt' : ((a - b).toNat : ℤ) < 2^w := by exact_mod_cast hlt
    linarith

theorem offset_self (hw : 0 < w) (a : BitVec w) : offset a a = 0 := by
  have hge : seqNumGE a a = true := by
    rw [seqNumGE_half hw,BitVec.sub_self]
    left
    exact Nat.two_pow_pos _
  unfold offset
  rw [if_pos hge,BitVec.sub_self]
  rfl

theorem ne_add_one (hw : 0 < w) (a : BitVec w) : a ≠ a + 1#w := by
  intro h
  have hone : 1#w = 0#w := by
    calc
      1#w = a + 1#w - a := by rw [BitVec.add_comm,BitVec.add_sub_cancel]
      _ = 0#w := by rw [← h,BitVec.sub_self]
  have hlt : 1 < 2^w := Nat.one_lt_two_pow (by omega)
  have hnat := congrArg BitVec.toNat hone
  rw [BitVec.toNat_ofNat,BitVec.toNat_ofNat,Nat.mod_eq_of_lt hlt] at hnat
  simp at hnat

/-- The tentative path starts from zero, so it agrees on the number only before the first
update and after an update to zero. -/
theorem TentativeUnwrapper.result_iff (u : TentativeUnwrapper w) (value : BitVec w) :
    (u.unwrapWithoutUpdate value).1 = (u.unwrap value).1 ↔
      u.lastValue = none ∨ u.lastUnwrapped = 0 := by
  cases h : u.lastValue with
  | none =>
      simp only [unwrapWithoutUpdate,unwrap,SeqNumUnwrapper.unwrap,h,true_or]
  | some last =>
      have hdirect : (u.unwrap value).1 = u.lastUnwrapped + offset value last :=
        u.toSeqNumUnwrapper.unwrap_offset value h
      have htentative : (u.unwrapWithoutUpdate value).1 = offset value last := by
        unfold unwrapWithoutUpdate offset
        simp only [h]
      rw [hdirect,htentative]
      constructor
      · intro e
        right
        linarith
      · intro e
        cases e with
        | inl e => cases e
        | inr e => rw [e,zero_add]

/-- What `Unwrap`, `UpdateLast` and `Unwrap` return after one another. -/
theorem Caller.results_update (u : TentativeUnwrapper w) (y z : BitVec w) :
    Caller.results ⟨u,none⟩ [.unwrap y,.updateLast,.unwrap z] =
      [some (u.unwrap y).1,some (u.unwrap y).1,
        some ((u.unwrap y).1 + offset z (u.lastWithoutUpdateValue.getD y))] := by
  have hlast : ((u.unwrap y).2.updateLast (u.unwrap y).1).lastValue =
      some (u.lastWithoutUpdateValue.getD y) := by
    cases h : u.lastWithoutUpdateValue with
    | none =>
        simp only [TentativeUnwrapper.updateLast,TentativeUnwrapper.unwrap,h]
        rfl
    | some t =>
        simp only [TentativeUnwrapper.updateLast,TentativeUnwrapper.unwrap,h]
        rfl
  have hthird := SeqNumUnwrapper.unwrap_offset
    ((u.unwrap y).2.updateLast (u.unwrap y).1).toSeqNumUnwrapper z hlast
  simp only [Caller.results,Caller.step,List.cons.injEq,Option.some.injEq,true_and,and_true]
  exact hthird

/-- A tentative value that differs shows in a later `UpdateLast`. -/
theorem TentativeUnwrapper.later_iff (hw : 0 < w) (u : TentativeUnwrapper w) (value : BitVec w) :
    (∀ calls, Caller.results ⟨(u.unwrapWithoutUpdate value).2,none⟩ calls =
        Caller.results ⟨u,none⟩ calls) ↔
      u.lastWithoutUpdateValue = some value := by
  constructor
  · intro h
    have hcalls := h [.unwrap (value + 1#w),.updateLast,.unwrap value]
    rw [Caller.results_update,Caller.results_update] at hcalls
    simp only [List.cons.injEq,Option.some.injEq,and_true] at hcalls
    have hsame : ((u.unwrapWithoutUpdate value).2.unwrap (value + 1#w)).1 =
        (u.unwrap (value + 1#w)).1 := rfl
    have hzero : offset value (u.lastWithoutUpdateValue.getD (value + 1#w)) = 0 := by
      have htentative : (u.unwrapWithoutUpdate value).2.lastWithoutUpdateValue.getD (value + 1#w) =
          value := rfl
      have hthird := hcalls.2.2
      rw [htentative,offset_self hw,hsame] at hthird
      linarith
    have heq := offset_eq_zero hzero
    cases ht : u.lastWithoutUpdateValue with
    | none =>
        exfalso
        rw [ht,Option.getD_none] at heq
        exact ne_add_one hw value heq
    | some t =>
        rw [ht,Option.getD_some] at heq
        rw [heq]
  · intro h calls
    have hsame : (u.unwrapWithoutUpdate value).2 = u := by
      cases u
      simp only at h
      simp only [unwrapWithoutUpdate,h]
    rw [hsame]

theorem TentativeUnwrapper.update_iff (u : TentativeUnwrapper w) (value : BitVec w) :
    (u.unwrapWithoutUpdate value).2.updateLast (u.unwrapWithoutUpdate value).1 =
        (u.unwrap value).2 ↔
      (u.unwrapWithoutUpdate value).1 = (u.unwrap value).1 ∧
        u.lastWithoutUpdateValue = some value := by
  have hdirect : (u.unwrap value).2 =
      ⟨⟨(u.unwrap value).1,some value⟩,u.lastWithoutUpdateValue⟩ := rfl
  have htentative : (u.unwrapWithoutUpdate value).2.updateLast (u.unwrapWithoutUpdate value).1 =
      ⟨⟨(u.unwrapWithoutUpdate value).1,some value⟩,some value⟩ := rfl
  rw [hdirect,htentative]
  simp only [TentativeUnwrapper.mk.injEq,SeqNumUnwrapper.mk.injEq,and_true]
  constructor
  · intro h
    exact ⟨h.1,h.2.symm⟩
  · intro h
    exact ⟨h.1,h.2.symm⟩

/-- After any mix of calls the tentative path agrees with `Unwrap` exactly when nothing has
been unwrapped, or the last unwrapped number is zero, and the value asked for is already the
tentative one. -/
theorem agrees_iff (hw : 0 < w) (calls : List (Call w)) (value : BitVec w) :
    Agrees (reached calls) value ↔
      ((reached calls).lastValue = none ∨ (reached calls).lastUnwrapped = 0) ∧
        (reached calls).lastWithoutUpdateValue = some value := by
  generalize reached calls = u
  have hresult := u.result_iff value
  have hlater := u.later_iff hw value
  have hupdate := u.update_iff value
  constructor
  · intro h
    exact ⟨hresult.mp h.result,hlater.mp h.later⟩
  · intro h
    exact ⟨hresult.mpr h.1,hlater.mpr h.2,hupdate.mpr ⟨hresult.mpr h.1,h.2⟩⟩

/-- A second tentative look at the first value. -/
theorem agrees_iff_second_look :
    Agrees (reached [Call.unwrapWithoutUpdate 10#16]) 10#16 ↔
      ((reached [Call.unwrapWithoutUpdate 10#16]).lastValue = none ∨
          (reached [Call.unwrapWithoutUpdate 10#16]).lastUnwrapped = 0) ∧
        (reached [Call.unwrapWithoutUpdate 10#16]).lastWithoutUpdateValue = some 10#16 :=
  agrees_iff (by decide) [Call.unwrapWithoutUpdate 10#16] 10#16

/-- After `Unwrap(10)`, `UnwrapWithoutUpdate(11)` returns 1 where `Unwrap(11)` returns 11. -/
theorem not_always_agrees :
    ¬ ∀ (calls : List (Call 16)) (value : BitVec 16), Agrees (reached calls) value := by
  intro h
  have hresult := (h [.unwrap 10#16] 11#16).result
  revert hresult
  decide

end Tentative
end Ylrtc.SequenceNumber
