import Mathlib.Data.BitVec
import Mathlib.Data.Int.Basic
import Mathlib.Data.List.Basic
import Mathlib.Tactic.Ring

/-!
# Deques of numbered items

A list whose places may be empty and whose items carry numbers of a fixed width: the
item at index `i` has the number `base + i`, and the first and the last place are not
empty. Dropping places from the front and inserting an item at a signed distance from
the front keep this.
-/
namespace Ylrtc.NumberedDeque
variable {α : Type} {w : ℕ}

/-- Room is made in front of a negative distance and behind a positive one. -/
def insertAt (q : List (Option α)) (d : ℤ) (a : α) : List (Option α) :=
  let front := List.replicate (-d).toNat none ++ q
  (front ++ List.replicate (d.toNat+1-front.length) none).set d.toNat (some a)

structure Ordered (number : α → BitVec w) (base : BitVec w) (q : List (Option α)) : Prop where
  first : q[0]? ≠ some none
  last : q[q.length-1]? ≠ some none
  numbered : ∀ i a, q[i]? = some (some a) → number a = base + BitVec.ofNat w i

section Places
variable (q : List (Option α)) (d : ℤ) (a : α)

theorem length_insertAt :
    (insertAt q d a).length = max ((-d).toNat+q.length) (d.toNat+1) := by
  simp only [insertAt,List.length_set,List.length_append,List.length_replicate]
  omega

/-- The item at its place, the others shifted, and nothing new elsewhere. -/
theorem getElem?_insertAt (i : ℕ) :
    (insertAt q d a)[i]? =
      if i = d.toNat then some (some a)
      else if i < (-d).toNat then some none
      else if i < (-d).toNat+q.length then q[i-(-d).toNat]?
      else if i < d.toNat then some none else none := by
  simp only [insertAt,List.getElem?_set,List.length_append,List.length_replicate]
  by_cases hi : i = d.toNat
  · rw [if_pos hi,if_pos hi.symm,if_pos (by omega)]
  rw [if_neg (Ne.symm hi),if_neg hi]
  by_cases hfront : i < (-d).toNat
  · rw [if_pos hfront,List.append_assoc,
      List.getElem?_append_left (by rw [List.length_replicate]; exact hfront),
      List.getElem?_replicate_of_lt hfront]
  rw [if_neg hfront]
  by_cases hold : i < (-d).toNat+q.length
  · rw [if_pos hold,List.getElem?_append_left (by
      rw [List.length_append,List.length_replicate]; exact hold),
      List.getElem?_append_right (by rw [List.length_replicate]; omega),List.length_replicate]
  rw [if_neg hold,List.getElem?_append_right (by
    rw [List.length_append,List.length_replicate]; omega),List.length_append,
    List.length_replicate,List.getElem?_replicate]
  split <;> split
  · rfl
  · omega
  · omega
  · rfl

theorem getElem?_insertAt_self : (insertAt q d a)[d.toNat]? = some (some a) := by
  rw [getElem?_insertAt,if_pos rfl]

/-- A place inside the deque is refilled. -/
theorem insertAt_set_none (hd : 0 ≤ d) (hlength : d.toNat < q.length) :
    insertAt (q.set d.toNat none) d a = q.set d.toNat (some a) := by
  simp only [insertAt]
  rw [show (-d).toNat = 0 by omega,List.replicate_zero,List.nil_append,List.length_set,
    show d.toNat+1-q.length = 0 by omega,List.replicate_zero,List.append_nil,List.set_set]

/-- Every item was there before, unless it is the new one. -/
theorem getElem?_of_insertAt {i : ℕ} {b : α} (h : (insertAt q d a)[i]? = some (some b)) :
    (i = d.toNat ∧ b = a) ∨ ((-d).toNat ≤ i ∧ q[i-(-d).toNat]? = some (some b)) := by
  rw [getElem?_insertAt] at h
  split at h
  · rename_i hi
    simp only [Option.some.injEq] at h
    exact .inl ⟨hi,h.symm⟩
  split at h
  · simp at h
  split at h
  · exact .inr ⟨by omega,h⟩
  split at h
  · simp at h
  · simp at h

end Places

section Numbers
variable {number : α → BitVec w} {base : BitVec w} {q : List (Option α)}

theorem ordered_nil (number : α → BitVec w) (base : BitVec w) : Ordered number base [] :=
  ⟨by simp,by simp,by simp⟩

/-- Indices below the span of the numbers are told apart by them. -/
theorem Ordered.index_injective (h : Ordered number base q) {i j : ℕ} {a b : α}
    (hi : q[i]? = some (some a)) (hj : q[j]? = some (some b)) (hi' : i < 2^w) (hj' : j < 2^w)
    (hab : number a = number b) : i = j := by
  rw [h.numbered i a hi,h.numbered j b hj,BitVec.add_right_inj,← BitVec.toNat_inj,
    BitVec.toNat_ofNat,BitVec.toNat_ofNat,Nat.mod_eq_of_lt hi',Nat.mod_eq_of_lt hj'] at hab
  exact hab

/-- Dropping up to an item that is there. -/
theorem Ordered.drop (h : Ordered number base q) {k : ℕ} (hk : q[k]? ≠ some none) :
    Ordered number (base + BitVec.ofNat w k) (q.drop k) where
  first := by
    rw [List.getElem?_drop]
    exact hk
  last := by
    rw [List.getElem?_drop,List.length_drop]
    by_cases hlt : k < q.length
    · rw [show k+(q.length-k-1) = q.length-1 by omega]
      exact h.last
    · rw [List.getElem?_eq_none (by omega)]
      simp
  numbered i a hi := by
    rw [List.getElem?_drop] at hi
    rw [h.numbered _ a hi,BitVec.ofNat_add,BitVec.add_assoc]

/-- An item takes the place of another that has its number. -/
theorem Ordered.set (h : Ordered number base q) {i : ℕ} {a b : α} (hi : q[i]? = some (some b))
    (hab : number a = number b) : Ordered number base (q.set i (some a)) where
  first := by
    rw [List.getElem?_set]
    split
    · split <;> simp
    · exact h.first
  last := by
    rw [List.length_set,List.getElem?_set]
    split
    · split <;> simp
    · exact h.last
  numbered j c hj := by
    rw [List.getElem?_set] at hj
    split at hj
    · rename_i hij
      split at hj
      · simp only [Option.some.injEq] at hj
        rw [← hj,hab,← hij,h.numbered i b hi]
      · simp at hj
    · exact h.numbered j c hj

theorem ofInt_eq_sub (w : ℕ) (d : ℤ) :
    BitVec.ofInt w d = BitVec.ofNat w d.toNat - BitVec.ofNat w (-d).toNat := by
  cases d with
  | ofNat n => simp
  | negSucc n =>
      rw [show (Int.negSucc n).toNat = 0 from rfl,show (-Int.negSucc n).toNat = n+1 from rfl,
        Int.negSucc_eq,BitVec.ofInt_neg,← Nat.cast_succ,BitVec.ofInt_natCast]
      simp

/-- An item is inserted at the distance of its number from the front's. -/
theorem Ordered.insertAt (h : Ordered number base q) {d : ℤ} {a : α} (hq : q = [] → d = 0)
    (ha : number a = base + BitVec.ofInt w d) :
    Ordered number (base - BitVec.ofNat w (-d).toNat) (insertAt q d a) := by
  have hlength : q.length = 0 → d = 0 := fun hzero => hq (List.length_eq_zero_iff.mp hzero)
  constructor
  · rw [getElem?_insertAt]
    split
    · simp
    · -- behind the front, which is there and stays the first
      rename_i hd
      rw [if_neg (by omega),if_pos (by omega),show 0-(-d).toNat = 0 by omega]
      exact h.first
  · rw [getElem?_insertAt,length_insertAt]
    split
    · simp
    · rename_i hd
      rw [if_neg (by omega),if_pos (by omega)]
      rw [show max ((-d).toNat+q.length) (d.toNat+1)-1-(-d).toNat = q.length-1 by omega]
      exact h.last
  · intro i b hi
    cases getElem?_of_insertAt q d a hi with
    | inl hnew =>
        rw [hnew.1,hnew.2,ha,ofInt_eq_sub]
        ring
    | inr hold =>
        have hshift : BitVec.ofNat w i =
            BitVec.ofNat w (i-(-d).toNat) + BitVec.ofNat w (-d).toNat := by
          rw [← BitVec.ofNat_add,Nat.sub_add_cancel hold.1]
        rw [h.numbered _ b hold.2,hshift]
        ring

end Numbers
end Ylrtc.NumberedDeque
