import Mathlib.Algebra.Order.Group.Nat
import Mathlib.Data.Int.Basic
import Mathlib.Data.List.Basic
import Mathlib.Tactic.Ring
import Mathlib.Tactic.SplitIfs

/-!
# Deques indexed by integers

A deque whose front sits at an arbitrary integer index. Read at an index it does
not hold, it answers zero, so a deque is also a function from integers to values
with finite support; each operation is characterised by that function and by the
two ends.
-/
namespace Ylrtc.IndexedDeque

structure Deque (α : Type) where
  front : ℤ
  items : List α
  deriving DecidableEq, Repr

namespace Deque
variable {α : Type}

/-- The index after the last item. -/
def stop (d : Deque α) : ℤ := d.front + d.items.length

def value [Zero α] (d : Deque α) (n : ℤ) : α :=
  if n < d.front then 0 else d.items.getD (n - d.front).toNat 0

def put (d : Deque α) (n : ℤ) (x : α) : Deque α :=
  ⟨d.front,d.items.set (n - d.front).toNat x⟩

/-- `k` zeros and then `x` behind the last item. -/
def growBack [Zero α] (d : Deque α) (k : ℕ) (x : α) : Deque α :=
  ⟨d.front,d.items ++ List.replicate k 0 ++ [x]⟩

/-- `k` zeros before the first item, the first of them replaced by `x`. -/
def growFront [Zero α] (d : Deque α) (k : ℕ) (x : α) : Deque α :=
  ⟨d.front - k,(List.replicate k 0 ++ d.items).set 0 x⟩

def dropFront (d : Deque α) (k : ℕ) : Deque α := ⟨d.front + k,d.items.drop k⟩

def popItems (p : ℤ → α → Bool) : List α → ℤ → Deque α
  | [],front => ⟨front,[]⟩
  | x::xs,front => if p front x then popItems p xs (front+1) else ⟨front,x::xs⟩

/-- Pop from the front as long as the condition holds of the first item. -/
def popWhile (p : ℤ → α → Bool) (d : Deque α) : Deque α := popItems p d.items d.front

section Stops
variable (d : Deque α)

theorem front_le_stop : d.front ≤ d.stop := by
  unfold stop
  omega

theorem stop_put (n : ℤ) (x : α) : (d.put n x).stop = d.stop := by
  simp only [stop,put,List.length_set]

theorem stop_growBack [Zero α] (k : ℕ) (x : α) : (d.growBack k x).stop = d.stop+k+1 := by
  simp only [stop,growBack,List.length_append,List.length_replicate,List.length_singleton]
  omega

theorem stop_growFront [Zero α] (k : ℕ) (x : α) : (d.growFront k x).stop = d.stop := by
  simp only [stop,growFront,List.length_set,List.length_append,List.length_replicate]
  omega

theorem stop_dropFront {k : ℕ} (hk : k ≤ d.items.length) : (d.dropFront k).stop = d.stop := by
  simp only [stop,dropFront,List.length_drop]
  omega

end Stops

section Values
variable [Zero α] (d : Deque α)

theorem value_of_lt {n : ℤ} (h : n < d.front) : d.value n = 0 := if_pos h

theorem value_of_ge {n : ℤ} (h : d.front ≤ n) :
    d.value n = d.items.getD (n - d.front).toNat 0 := if_neg (by omega)

theorem value_of_stop_le {n : ℤ} (h : d.stop ≤ n) : d.value n = 0 := by
  unfold stop at h
  rw [d.value_of_ge (by omega),List.getD_eq_getElem?_getD,List.getElem?_eq_none (by omega),
    Option.getD_none]

/-- An index with a value is held by the deque. -/
theorem range_of_value_ne {n : ℤ} (h : d.value n ≠ 0) : d.front ≤ n ∧ n < d.stop := by
  constructor
  · by_contra hn
    exact h (d.value_of_lt (by omega))
  · by_contra hn
    exact h (d.value_of_stop_le (by omega))

theorem value_put {n : ℤ} (hn : d.front ≤ n) (hn' : n < d.stop) (x : α) (m : ℤ) :
    (d.put n x).value m = if m = n then x else d.value m := by
  unfold stop at hn'
  simp only [put]
  simp only [value,List.getD_eq_getElem?_getD,List.getElem?_set]
  by_cases hm : m < d.front
  · rw [if_pos hm,if_neg (by omega),if_pos hm]
  · rw [if_neg hm,if_neg hm]
    by_cases he : m = n
    · rw [if_pos he,if_pos (by omega),if_pos (by omega),Option.getD_some]
    · rw [if_neg he,if_neg (by omega)]

theorem value_growBack (k : ℕ) (x : α) (m : ℤ) :
    (d.growBack k x).value m = if m = d.stop+k then x else d.value m := by
  have hstop : d.stop = d.front + d.items.length := rfl
  simp only [growBack]
  simp only [value]
  by_cases hm : m < d.front
  · rw [if_pos hm,if_neg (by omega),if_pos hm]
  rw [if_neg hm,if_neg hm,List.append_assoc]
  simp only [List.getD_eq_getElem?_getD]
  by_cases h₁ : (m - d.front).toNat < d.items.length
  · rw [List.getElem?_append_left h₁,if_neg (by omega)]
  rw [List.getElem?_append_right (by omega),List.getElem?_eq_none (by omega : d.items.length ≤ _)]
  by_cases h₂ : (m - d.front).toNat - d.items.length < k
  · rw [List.getElem?_append_left (by rw [List.length_replicate]; omega),
      List.getElem?_replicate_of_lt h₂,if_neg (by omega),Option.getD_some,Option.getD_none]
  rw [List.getElem?_append_right (by rw [List.length_replicate]; omega),List.length_replicate]
  by_cases he : m = d.stop + k
  · rw [if_pos he,show (m - d.front).toNat - d.items.length - k = 0 by omega]
    rfl
  · rw [if_neg he,List.getElem?_eq_none (by rw [List.length_singleton]; omega)]

theorem value_growFront {k : ℕ} (hk : 0 < k) (x : α) (m : ℤ) :
    (d.growFront k x).value m = if m = d.front - k then x else d.value m := by
  simp only [growFront]
  simp only [value]
  by_cases hm : m < d.front - k
  · rw [if_pos hm,if_neg (by omega),if_pos (by omega)]
  rw [if_neg hm]
  simp only [List.getD_eq_getElem?_getD,List.getElem?_set]
  by_cases he : m = d.front - k
  · rw [if_pos he,if_pos (by omega),if_pos (by
      rw [List.length_append,List.length_replicate]; omega),Option.getD_some]
  rw [if_neg he,if_neg (by omega)]
  by_cases h₁ : m < d.front
  · rw [if_pos h₁,List.getElem?_append_left (by rw [List.length_replicate]; omega),
      List.getElem?_replicate_of_lt (by omega),Option.getD_some]
  · rw [if_neg h₁,List.getElem?_append_right (by rw [List.length_replicate]; omega),
      List.length_replicate]
    congr 2
    omega

theorem value_dropFront (k : ℕ) (m : ℤ) :
    (d.dropFront k).value m = if m < d.front + k then 0 else d.value m := by
  simp only [dropFront]
  simp only [value]
  by_cases hm : m < d.front + k
  · rw [if_pos hm,if_pos hm]
  · rw [if_neg hm,if_neg hm,if_neg (by omega)]
    simp only [List.getD_eq_getElem?_getD,List.getElem?_drop]
    congr 2
    omega

end Values

theorem popItems_spec [Zero α] (p : ℤ → α → Bool) (xs : List α) (front : ℤ) :
    ∃ k ≤ xs.length, popItems p xs front = dropFront ⟨front,xs⟩ k ∧
      (∀ n, front ≤ n → n < front + k → p n (value ⟨front,xs⟩ n) = true) ∧
      (k < xs.length → p (front+k) (value ⟨front,xs⟩ (front+k)) = false) := by
  induction xs generalizing front with
  | nil => exact ⟨0,le_rfl,by simp [popItems,dropFront],fun n h h' => by omega,fun h => by simp at h⟩
  | cons x xs ih =>
      have hhead : value ⟨front,x::xs⟩ front = x := by simp [value]
      have htail : ∀ n, front+1 ≤ n → value ⟨front,x::xs⟩ n = value ⟨front+1,xs⟩ n := by
        intro n hn
        simp only [value]
        rw [if_neg (by omega),if_neg (by omega),
          show (n - front).toNat = (n - (front+1)).toNat+1 by omega,List.getD_cons_succ]
      cases hp : p front x with
      | false =>
          refine ⟨0,Nat.zero_le _,by simp [popItems,hp,dropFront],fun n h h' => by omega,fun _ => ?_⟩
          simpa [hhead] using hp
      | true =>
          obtain ⟨k,hk,heq,hall,hstop⟩ := ih (front+1)
          refine ⟨k+1,by simpa using hk,?_,fun n h h' => ?_,fun h => ?_⟩
          · simp only [popItems,hp,if_true,heq,dropFront,List.drop_succ_cons,Deque.mk.injEq,
              and_true]
            omega
          · by_cases hn : n = front
            · rw [hn,hhead,hp]
            · rw [htail n (by omega)]
              exact hall n (by omega) (by omega)
          · have hk' := hstop (by simpa using h)
            rw [Nat.cast_add,Nat.cast_one,htail _ (by omega)]
            rwa [show front+((k : ℤ)+1) = front+1+k by ring]

/-- `popWhile` drops a prefix, all of it below the condition, and stops at an
item that fails it. -/
theorem popWhile_spec [Zero α] (p : ℤ → α → Bool) (d : Deque α) :
    ∃ k ≤ d.items.length, d.popWhile p = d.dropFront k ∧
      (∀ n, d.front ≤ n → n < d.front + k → p n (d.value n) = true) ∧
      (k < d.items.length → p (d.front+k) (d.value (d.front+k)) = false) :=
  popItems_spec p d.items d.front

end Deque
end Ylrtc.IndexedDeque
