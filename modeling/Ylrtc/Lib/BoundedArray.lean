import Mathlib.Data.List.Basic

/-!
# Arrays with writes past their end

An array of a fixed length whose writes may overlap. What is written past the end changes
nothing in it and is remembered.
-/
namespace Ylrtc

structure BoundedArray (α : Type) (n : ℕ) where
  cells : Vector α n
  outside : List (ℕ × α) := []

namespace BoundedArray
variable {α : Type} {n : ℕ}

def write (a : BoundedArray α n) (i : ℕ) (x : α) : BoundedArray α n :=
  if i < n then { a with cells := a.cells.setIfInBounds i x }
  else { a with outside := a.outside++[(i,x)] }

/-- Values one behind the other. -/
def writeAll (a : BoundedArray α n) (i : ℕ) : List α → BoundedArray α n
  | [] => a
  | x::xs => (a.write i x).writeAll (i+1) xs

theorem toList_write (a : BoundedArray α n) {i : ℕ} (h : i < n) (x : α) :
    (a.write i x).cells.toList = a.cells.toList.set i x := by
  rw [write,if_pos h,Vector.toList_setIfInBounds]

theorem outside_write (a : BoundedArray α n) {i : ℕ} (h : i < n) (x : α) :
    (a.write i x).outside = a.outside := by
  rw [write,if_pos h]

/-- Writes that fit replace a part of the array. -/
theorem toList_writeAll (a : BoundedArray α n) {i : ℕ} {xs : List α} (h : i+xs.length ≤ n) :
    (a.writeAll i xs).cells.toList =
      a.cells.toList.take i++xs++a.cells.toList.drop (i+xs.length) := by
  induction xs generalizing a i with
  | nil => simp [writeAll]
  | cons x xs ih =>
      rw [List.length_cons] at h
      have hi : i < (a.cells.toList.set i x).length := by
        rw [List.length_set,Vector.length_toList]
        omega
      have htake : (a.cells.toList.set i x).take (i+1) = a.cells.toList.take i++[x] := by
        rw [List.take_succ_eq_append_getElem hi,List.take_set,List.set_eq_of_length_le
          (List.length_take_le _ _),List.getElem_set_self]
      have hdrop : (a.cells.toList.set i x).drop (i+1+xs.length) =
          a.cells.toList.drop (i+(x::xs).length) := by
        rw [List.drop_set,if_pos (by omega),List.length_cons,Nat.add_right_comm i 1,Nat.add_assoc]
      rw [writeAll,ih _ (by omega),toList_write a (by omega),htake,hdrop,List.append_assoc _ [x],
        List.singleton_append]

theorem outside_writeAll (a : BoundedArray α n) {i : ℕ} {xs : List α} (h : i+xs.length ≤ n) :
    (a.writeAll i xs).outside = a.outside := by
  induction xs generalizing a i with
  | nil => rfl
  | cons x xs ih =>
      rw [List.length_cons] at h
      rw [writeAll,ih _ (by omega),outside_write a (by omega)]

/-- Nothing that was written outside is forgotten. -/
theorem prefix_outside_writeAll (a : BoundedArray α n) (i : ℕ) (xs : List α) :
    a.outside <+: (a.writeAll i xs).outside := by
  induction xs generalizing a i with
  | nil => exact List.prefix_refl a.outside
  | cons x xs ih =>
      refine List.IsPrefix.trans ?_ (ih (a.write i x) (i+1))
      rw [write]
      split
      · exact List.prefix_refl a.outside
      · exact List.prefix_append a.outside _

/-- Writes that do not fit are seen. -/
theorem outside_lt_writeAll (a : BoundedArray α n) {i : ℕ} {xs : List α} (hxs : xs ≠ [])
    (h : n < i+xs.length) : a.outside.length < (a.writeAll i xs).outside.length := by
  induction xs generalizing a i with
  | nil => exact absurd rfl hxs
  | cons x xs ih =>
      rw [List.length_cons] at h
      rw [writeAll]
      by_cases hi : i < n
      · have hrest : xs ≠ [] := by
          rintro rfl
          rw [List.length_nil] at h
          omega
        rw [← outside_write a hi x]
        exact ih _ hrest (by omega)
      · have hprefix := (prefix_outside_writeAll (a.write i x) (i+1) xs).length_le
        rw [write,if_neg hi,List.length_append,List.length_singleton] at hprefix
        rw [write,if_neg hi]
        omega

end BoundedArray
end Ylrtc
