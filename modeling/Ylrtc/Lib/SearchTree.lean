import Mathlib.Data.Int.Basic
import Mathlib.Data.List.Basic
import Mathlib.Data.List.TakeWhile

/-!
# Searches in ordered containers

The keys of a search tree in their order, and the place where a descent ends. A descent
knows the answers of its test at the two keys it ends between, and nothing else. Along
keys whose comparisons agree with a position that is one place only; with a comparator
that is no order the shape of the tree decides, so it stays a parameter.
-/
namespace Ylrtc.SearchTree
variable {K : Type}

/-- Where the descents of one tree end: behind a key that passes the test and before one
that fails it. -/
structure Descent (K : Type) where
  place : List K → (K → Bool) → ℕ
  place_le : ∀ xs test, place xs test ≤ xs.length
  passed : ∀ xs test x i, place xs test = i+1 → xs[i]? = some x → test x = true
  failed : ∀ xs test x, xs[place xs test]? = some x → test x = false

/-- The leftmost such place. -/
def Descent.leftmost : Descent K where
  place xs test := (xs.takeWhile test).length
  place_le xs test := (List.takeWhile_sublist test).length_le
  passed xs test x i hplace hx := by
    have hi : i < (xs.takeWhile test).length := by omega
    have htaken := (List.takeWhile_prefix test).getElem hi
    have hsome := (List.getElem?_eq_some_iff.mp hx).2
    rw [hsome] at htaken
    have hmem := List.getElem_mem hi
    rw [htaken] at hmem
    exact List.mem_takeWhile_imp hmem
  failed xs test x hx := by
    induction xs with
    | nil => simp at hx
    | cons y xs ih =>
        rw [List.takeWhile_cons] at hx
        split at hx
        · exact ih hx
        · rename_i hy
          simp only [List.length_nil,List.getElem?_cons_zero,Option.some.injEq] at hx
          rw [← hx]
          simpa using hy

section Places
variable (d : Descent K) {xs : List K} {test : K → Bool}

/-- No key passes the test behind one that fails it. -/
def PassesFirst (test : K → Bool) (xs : List K) : Prop :=
  xs.Pairwise fun x y => test y = true → test x = true

/-- A descent ends behind the keys that pass. -/
theorem Descent.passed_of_mem_take (h : PassesFirst test xs) {x : K}
    (hx : x ∈ xs.take (d.place xs test)) : test x = true := by
  obtain ⟨i,hi,hget⟩ := List.mem_take_iff_getElem.mp hx
  have hle := d.place_le xs test
  cases hplace : d.place xs test with
  | zero => omega
  | succ j =>
      have hlast : xs[j]? = some xs[j] := List.getElem?_eq_getElem (by omega)
      have hpassed := d.passed xs test xs[j] j hplace hlast
      rw [← hget]
      by_cases hij : i = j
      · simp only [hij]
        exact hpassed
      · exact List.pairwise_iff_getElem.mp h i j (by omega) (by omega) (by omega) hpassed

/-- It ends before the keys that fail. -/
theorem Descent.failed_of_mem_drop (h : PassesFirst test xs) {x : K}
    (hx : x ∈ xs.drop (d.place xs test)) : test x = false := by
  obtain ⟨i,hi,hget⟩ := List.mem_drop_iff_getElem.mp hx
  have hfirst : xs[d.place xs test]? = some (xs.get ⟨d.place xs test,by omega⟩) :=
    List.getElem?_eq_getElem (by omega)
  have hfailed := d.failed xs test _ hfirst
  rw [List.get_eq_getElem] at hfailed
  by_contra hpassed
  rw [Bool.not_eq_false,← hget] at hpassed
  by_cases hi0 : i = 0
  · simp only [hi0,Nat.add_zero,hfailed] at hpassed
    exact Bool.false_ne_true hpassed
  · have hall := List.pairwise_iff_getElem.mp h (d.place xs test) (d.place xs test+i)
      (by omega) (by omega) (by omega) hpassed
    rw [hfailed] at hall
    exact Bool.false_ne_true hall

/-- The keys in front of a place are those with a property that none behind it has. -/
theorem filter_eq_take {p : K → Prop} [DecidablePred p] {i : ℕ} (hfront : ∀ x ∈ xs.take i, p x)
    (hbehind : ∀ x ∈ xs.drop i, ¬p x) : (xs.filter fun x => p x) = xs.take i := by
  have hsplit := congrArg (List.filter fun x => p x) (List.take_append_drop i xs)
  rw [List.filter_append,List.filter_eq_self.mpr fun x hx => decide_eq_true (hfront x hx),
    List.filter_eq_nil_iff.mpr fun x hx => by simpa using hbehind x hx,List.append_nil] at hsplit
  exact hsplit.symm

theorem filter_eq_drop {p : K → Prop} [DecidablePred p] {i : ℕ} (hfront : ∀ x ∈ xs.take i, ¬p x)
    (hbehind : ∀ x ∈ xs.drop i, p x) : (xs.filter fun x => p x) = xs.drop i := by
  have hsplit := congrArg (List.filter fun x => p x) (List.take_append_drop i xs)
  rw [List.filter_append,List.filter_eq_self.mpr fun x hx => decide_eq_true (hbehind x hx),
    List.filter_eq_nil_iff.mpr fun x hx => by simpa using hfront x hx,List.nil_append] at hsplit
  exact hsplit.symm

theorem insertIdx_eq_append {i : ℕ} (h : i ≤ xs.length) (k : K) :
    xs.insertIdx i k = xs.take i++k::xs.drop i := by
  induction xs generalizing i with
  | nil =>
      rw [List.length_nil,Nat.le_zero] at h
      rw [h]
      rfl
  | cons x xs ih =>
      cases i with
      | zero => rfl
      | succ i =>
          rw [List.length_cons,Nat.succ_le_succ_iff] at h
          rw [List.insertIdx_succ_cons,ih h,List.take_succ_cons,List.drop_succ_cons,
            List.cons_append]

end Places

section Operations
variable (d : Descent K) (lt : K → K → Bool)

def lowerBound (xs : List K) (k : K) : ℕ := d.place xs fun x => lt x k

/-- The index of a key that neither precedes nor follows the given one. -/
def findIndex (xs : List K) (k : K) : Option ℕ :=
  match xs[lowerBound d lt xs k]? with
  | none => none
  | some x => if lt k x then none else some (lowerBound d lt xs k)

def contains (xs : List K) (k : K) : Bool := (findIndex d lt xs k).isSome

/-- A key is inserted where a descent for it ends, unless the key before it is equal. -/
def insert (xs : List K) (k : K) : List K :=
  let i := d.place xs fun x => !lt k x
  match i with
  | 0 => k::xs
  | j+1 => if xs[j]?.any fun x => lt x k then xs.insertIdx (j+1) k else xs

end Operations

section Positions
variable (d : Descent K) {lt : K → K → Bool} {xs : List K} {k : K} {position : K → ℤ}

/-- The keys stand in the order of their positions, and comparisons with `k` agree. -/
structure Ordered (lt : K → K → Bool) (position : K → ℤ) (xs : List K) (k : K) : Prop where
  sorted : xs.Pairwise fun x y => position x < position y
  before : ∀ x ∈ xs, (lt x k = true ↔ position x < position k)
  behind : ∀ x ∈ xs, (lt k x = true ↔ position k < position x)

theorem Ordered.lt_of_index (h : Ordered lt position xs k) {i j : ℕ} {x y : K} (hij : i < j)
    (hx : xs[i]? = some x) (hy : xs[j]? = some y) : position x < position y := by
  have hi := List.getElem?_eq_some_iff.mp hx
  have hj := List.getElem?_eq_some_iff.mp hy
  cases hi with
  | intro hi hx =>
      cases hj with
      | intro hj hy =>
          have hlt := List.pairwise_iff_getElem.mp h.sorted i j hi hj hij
          rw [hx,hy] at hlt
          exact hlt

/-- A key stands in one place only, and is gone once that is erased. -/
theorem Ordered.not_mem_eraseIdx (h : Ordered lt position xs k) {i : ℕ} {x : K}
    (hx : xs[i]? = some x) : x ∉ xs.eraseIdx i := by
  intro hmem
  rw [List.mem_eraseIdx_iff_getElem?] at hmem
  cases hmem with
  | intro j hj =>
      cases Nat.lt_or_gt_of_ne hj.1 with
      | inl hlt =>
          have hpos := h.lt_of_index hlt hj.2 hx
          omega
      | inr hgt =>
          have hpos := h.lt_of_index hgt hx hj.2
          omega

theorem Ordered.passesFirst (h : Ordered lt position xs k) :
    PassesFirst (fun x => lt x k) xs := by
  apply h.sorted.imp_of_mem
  intro x y hx hy hxy hpassed
  rw [h.before y hy] at hpassed
  rw [h.before x hx]
  omega

/-- Every key in front of the lower bound precedes. -/
theorem Ordered.mem_take_lowerBound (h : Ordered lt position xs k) {x : K}
    (hx : x ∈ xs.take (lowerBound d lt xs k)) : position x < position k := by
  have hpassed := d.passed_of_mem_take h.passesFirst hx
  rw [h.before x (List.mem_of_mem_take hx)] at hpassed
  exact hpassed

/-- No key from the lower bound on precedes. -/
theorem Ordered.mem_drop_lowerBound (h : Ordered lt position xs k) {x : K}
    (hx : x ∈ xs.drop (lowerBound d lt xs k)) : position k ≤ position x := by
  have hfailed := d.failed_of_mem_drop h.passesFirst hx
  rw [← Bool.not_eq_true,h.before x (List.mem_of_mem_drop hx)] at hfailed
  omega

/-- The lower bound of a key behind all others is the end. -/
theorem lowerBound_eq_length (h : ∀ x ∈ xs, lt x k = true) :
    lowerBound d lt xs k = xs.length := by
  apply le_antisymm (d.place_le _ _)
  by_contra hlt
  have hfirst := List.getElem?_eq_getElem (not_le.mp hlt)
  have hfailed := d.failed xs (fun x => lt x k) _ hfirst
  rw [h _ (List.mem_of_getElem? hfirst)] at hfailed
  exact Bool.false_ne_true hfailed.symm

theorem Ordered.lowerBound_eq_length (h : Ordered lt position xs k)
    (hall : ∀ x ∈ xs, position x < position k) : lowerBound d lt xs k = xs.length :=
  SearchTree.lowerBound_eq_length d fun x hx => (h.before x hx).mpr (hall x hx)

/-- A key is found where it is. -/
theorem Ordered.findIndex_of_mem (h : Ordered lt position xs k) (hk : k ∈ xs) :
    ∃ i, findIndex d lt xs k = some i ∧ xs[i]? = some k := by
  cases List.mem_iff_getElem?.mp hk with
  | intro i hi =>
      have hle : lowerBound d lt xs k ≤ i := by
        by_contra hlt
        have hmem : k ∈ xs.take (lowerBound d lt xs k) := by
          apply List.mem_of_getElem? (i := i)
          rw [List.getElem?_take_of_lt (not_le.mp hlt)]
          exact hi
        have hself := h.mem_take_lowerBound d hmem
        omega
      have hge : i ≤ lowerBound d lt xs k := by
        by_contra hlt
        have hlength := (List.getElem?_eq_some_iff.mp hi).1
        have hfirst := List.getElem?_eq_getElem (lt_trans (not_le.mp hlt) hlength)
        have hfailed := d.failed xs (fun x => lt x k) _ hfirst
        rw [← Bool.not_eq_true,h.before _ (List.mem_of_getElem? hfirst)] at hfailed
        exact hfailed (h.lt_of_index (not_le.mp hlt) hfirst hi)
      have hbound : lowerBound d lt xs k = i := le_antisymm hle hge
      have hnot : ¬lt k k = true := by
        rw [h.behind k hk]
        omega
      exact ⟨i,by simp only [findIndex,hbound,hi,if_neg hnot],hi⟩

/-- Erasing in front of the lower bound leaves the keys that do not precede. -/
theorem Ordered.drop_lowerBound (h : Ordered lt position xs k) :
    xs.drop (lowerBound d lt xs k) = xs.filter fun x => position k ≤ position x := by
  symm
  apply filter_eq_drop
  · intro x hx
    have hlt := h.mem_take_lowerBound d hx
    omega
  · intro x hx
    exact h.mem_drop_lowerBound d hx

/-- Nothing precedes behind a lower bound. -/
theorem Ordered.lowerBound_drop (h : Ordered lt position xs k) :
    lowerBound d lt (xs.drop (lowerBound d lt xs k)) k = 0 := by
  have hdropped : Ordered lt position (xs.drop (lowerBound d lt xs k)) k :=
    ⟨h.sorted.sublist (List.drop_sublist _ _),fun x hx => h.before x (List.mem_of_mem_drop hx),
      fun x hx => h.behind x (List.mem_of_mem_drop hx)⟩
  by_contra hne
  have hpos : 0 < lowerBound d lt (xs.drop (lowerBound d lt xs k)) k := Nat.pos_of_ne_zero hne
  have hlength : 0 < (xs.drop (lowerBound d lt xs k)).length :=
    Nat.lt_of_lt_of_le hpos (d.place_le _ _)
  have hmem : (xs.drop (lowerBound d lt xs k))[0] ∈ (xs.drop (lowerBound d lt xs k)).take
      (lowerBound d lt (xs.drop (lowerBound d lt xs k)) k) :=
    List.mem_take_iff_getElem.mpr ⟨0,by omega,rfl⟩
  have hbefore := hdropped.mem_take_lowerBound d hmem
  have hbehind := h.mem_drop_lowerBound d (List.getElem_mem hlength)
  omega

theorem Ordered.passesFirst_not (h : Ordered lt position xs k) :
    PassesFirst (fun x => !lt k x) xs := by
  apply h.sorted.imp_of_mem
  intro x y hx hy hxy hpassed
  rw [Bool.not_eq_true',← Bool.not_eq_true,h.behind y hy] at hpassed
  rw [Bool.not_eq_true',← Bool.not_eq_true,h.behind x hx]
  omega

/-- The keys in front of the place where a key is inserted do not follow. -/
theorem Ordered.le_of_mem_take (h : Ordered lt position xs k) {x : K}
    (hx : x ∈ xs.take (d.place xs fun x => !lt k x)) : position x ≤ position k := by
  have hpassed := d.passed_of_mem_take h.passesFirst_not hx
  rw [Bool.not_eq_true',← Bool.not_eq_true,h.behind x (List.mem_of_mem_take hx)] at hpassed
  omega

theorem Ordered.lt_of_mem_drop (h : Ordered lt position xs k) {x : K}
    (hx : x ∈ xs.drop (d.place xs fun x => !lt k x)) : position k < position x := by
  have hfailed := d.failed_of_mem_drop h.passesFirst_not hx
  rw [Bool.not_eq_false',h.behind x (List.mem_of_mem_drop hx)] at hfailed
  exact hfailed

theorem Ordered.lt_of_mem_take (h : Ordered lt position xs k) {j : ℕ} (hj : j < xs.length) {x : K}
    (hx : x ∈ xs.take j) : position x < position xs[j] := by
  obtain ⟨i,hi,hget⟩ := List.mem_take_iff_getElem.mp hx
  apply h.lt_of_index (by omega : i < j) _ (List.getElem?_eq_getElem hj)
  rw [← hget]
  exact List.getElem?_eq_getElem (by omega)

/-- A key that is inserted stands between those that precede and those that follow. -/
theorem Ordered.insert_eq (h : Ordered lt position xs k)
    (hunique : ∀ x ∈ xs, position x = position k → x = k) :
    insert d lt xs k = (xs.filter fun x => position x < position k)++
      k::xs.filter fun x => position k < position x := by
  have hfront : ∀ x ∈ xs.take (d.place xs fun x => !lt k x), position x ≤ position k :=
    fun x hx => h.le_of_mem_take d hx
  have hbehind : ∀ x ∈ xs.drop (d.place xs fun x => !lt k x), position k < position x :=
    fun x hx => h.lt_of_mem_drop d hx
  have hle := d.place_le xs fun x => !lt k x
  rw [insert,filter_eq_drop (fun x hx => Int.not_lt.mpr (hfront x hx)) hbehind]
  cases hplace : d.place xs fun x => !lt k x with
  | zero =>
      rw [hplace,List.drop_zero] at hbehind
      rw [List.drop_zero,List.filter_eq_nil_iff.mpr]
      · rfl
      · intro x hx
        have hlt := hbehind x hx
        simp only [decide_eq_true_eq]
        omega
  | succ j =>
      rw [hplace] at hfront hbehind hle
      have hlast : xs[j]? = some xs[j] := List.getElem?_eq_getElem (by omega)
      have hmem : xs[j] ∈ xs := List.getElem_mem (by omega)
      simp only [hlast,Option.any_some,h.before xs[j] hmem]
      split
      case isTrue hless =>
        rw [insertIdx_eq_append hle,filter_eq_take]
        · intro x hx
          rw [List.take_succ_eq_append_getElem (by omega),List.mem_append,
            List.mem_singleton] at hx
          cases hx with
          | inl hx => exact Int.lt_trans (h.lt_of_mem_take (by omega) hx) hless
          | inr hx => exact hx ▸ hless
        · intro x hx
          have hlt := hbehind x hx
          omega
      case isFalse hnot =>
        -- the key is there already
        have hbelow := hfront xs[j] (List.mem_take_iff_getElem.mpr ⟨j,by omega,rfl⟩)
        have hk : xs[j] = k := hunique xs[j] hmem (by omega)
        rw [filter_eq_take (i := j),← hk,← List.drop_eq_getElem_cons,List.take_append_drop]
        · intro x hx
          have hlt := h.lt_of_mem_take (by omega) hx
          rw [hk] at hlt
          exact hlt
        · intro x hx
          rw [List.drop_eq_getElem_cons (by omega),List.mem_cons] at hx
          cases hx with
          | inl hx => exact hx ▸ hnot
          | inr hx =>
              have hlt := hbehind x hx
              omega

end Positions

section Found
variable (d : Descent K) {lt : K → K → Bool} {xs : List K} {k : K}

/-- Whatever the comparator, a key that is found is one the comparator takes for equal. -/
theorem getElem?_of_findIndex {i : ℕ} (h : findIndex d lt xs k = some i) :
    ∃ x, xs[i]? = some x ∧ lt x k = false ∧ lt k x = false := by
  rw [findIndex] at h
  cases hx : xs[lowerBound d lt xs k]? with
  | none => simp [hx] at h
  | some x =>
      simp only [hx] at h
      split at h
      · simp at h
      · rename_i hlt
        rw [Option.some.injEq] at h
        rw [← h]
        exact ⟨x,hx,d.failed xs _ x hx,by simpa using hlt⟩

theorem mem_insert_of_mem {x : K} (h : x ∈ xs) : x ∈ insert d lt xs k := by
  have hle := d.place_le xs fun x => !lt k x
  rw [insert]
  cases hplace : d.place xs fun x => !lt k x with
  | zero => exact List.mem_cons_of_mem k h
  | succ j =>
      simp only
      split
      · rw [hplace] at hle
        exact (List.mem_insertIdx hle).mpr (.inr h)
      · exact h

/-- A key is there once it is inserted, unless one is there that the comparator takes for
equal. -/
theorem insert_self (d : Descent K) (lt : K → K → Bool) (xs : List K) (k : K) :
    k ∈ insert d lt xs k ∨ ∃ x ∈ xs, lt x k = false ∧ lt k x = false := by
  have hle := d.place_le xs fun x => !lt k x
  rw [insert]
  cases hplace : d.place xs fun x => !lt k x with
  | zero => exact .inl List.mem_cons_self
  | succ j =>
      rw [hplace] at hle
      have hlast : xs[j]? = some xs[j] := List.getElem?_eq_getElem (by omega)
      have hpassed := d.passed xs (fun x => !lt k x) xs[j] j hplace hlast
      simp only [hlast,Option.any_some]
      split
      case isTrue => exact .inl ((List.mem_insertIdx hle).mpr (.inl rfl))
      case isFalse hnot =>
        rw [Bool.not_eq_true] at hnot
        exact .inr ⟨xs[j],List.getElem_mem (by omega),hnot,by simpa using hpassed⟩

end Found
end Ylrtc.SearchTree
