import Mathlib.Data.List.Infix
import Ylrtc.Lib.Pieces

/-!
# What stands in a list between delimiters

The part behind the last delimiter, and lists that are found in another. What has no
delimiter in it is found within one part.
-/
namespace Ylrtc.Pieces
variable {α : Type} {d : α}

theorem prefix_append_delim {p a b : List α} (h : d ∉ p) : p <+: a++d::b ↔ p <+: a := by
  induction a generalizing p with
  | nil =>
      cases p with
      | nil => simp
      | cons c p =>
          rw [List.mem_cons,not_or] at h
          rw [List.nil_append,List.cons_prefix_cons,List.prefix_nil]
          simp [Ne.symm h.1]
  | cons x a ih =>
      cases p with
      | nil => simp
      | cons c p =>
          rw [List.mem_cons,not_or] at h
          rw [List.cons_append,List.cons_prefix_cons,ih h.2,List.cons_prefix_cons]

/-- What is found around a delimiter without having it is found on one side of it. -/
theorem infix_append_delim {p a b : List α} (h : d ∉ p) :
    p <:+: a++d::b ↔ p <:+: a ∨ p <:+: b := by
  induction a with
  | nil =>
      rw [List.nil_append,List.infix_cons_iff,← List.nil_append (d::b),prefix_append_delim h,
        List.prefix_nil,List.infix_nil]
  | cons c a ih =>
      rw [List.cons_append,List.infix_cons_iff,ih,← List.cons_append,prefix_append_delim h,
        List.infix_cons_iff,or_assoc]

/-- What begins with a delimiter and has no other is found there, or on one side. -/
theorem infix_cons_append_delim {p a b : List α} (h : d ∉ p) :
    d::p <:+: a++d::b ↔ d::p <:+: a ∨ p <+: b ∨ d::p <:+: b := by
  induction a with
  | nil =>
      rw [List.nil_append,List.infix_cons_iff,List.cons_prefix_cons,List.infix_nil]
      simp
  | cons c a ih =>
      rw [List.cons_append,List.infix_cons_iff,ih,List.cons_prefix_cons,prefix_append_delim h,
        List.infix_cons_iff,List.cons_prefix_cons,or_assoc]

theorem infix_of_mem_flush {p piece : List α} (h : p ∈ flush piece) : p <:+: piece := by
  rw [flush] at h
  split at h
  · exact absurd h List.not_mem_nil
  · rw [List.mem_singleton.mp h]

variable [DecidableEq α]

/-- What stands behind the last delimiter, if there is one. -/
def behindLast (d : α) (s : List α) : Option (List α) :=
  if d ∈ s then some (s.reverse.takeWhile (· ≠ d)).reverse else none

theorem behindLast_append {front a : List α} (h : d ∉ a) : behindLast d (front++d::a) = some a := by
  have hall : ∀ c ∈ a.reverse, decide (c ≠ d) = true := by
    intro c hc
    rw [decide_eq_true_iff]
    exact fun heq => h (heq ▸ List.mem_reverse.mp hc)
  rw [behindLast,if_pos (List.mem_append_right _ List.mem_cons_self),List.reverse_append,
    List.reverse_cons,List.append_assoc,List.takeWhile_append_of_pos hall,List.singleton_append,
    List.takeWhile_cons_of_neg (by simp),List.append_nil,List.reverse_reverse]

theorem behindLast_eq_some {s a : List α} :
    behindLast d s = some a ↔ d ∉ a ∧ ∃ front, s = front++d::a := by
  constructor
  · intro h
    have hmem : d ∈ s := by
      rw [behindLast] at h
      split at h
      · assumption
      · cases h
    obtain ⟨as,bs,heq,has⟩ := List.eq_append_cons_of_mem (List.mem_reverse.mpr hmem)
    have hs : s = bs.reverse++d::as.reverse := by
      rw [← List.reverse_reverse s,heq]
      simp
    rw [hs,behindLast_append (mt List.mem_reverse.mp has),Option.some.injEq] at h
    rw [← h]
    exact ⟨mt List.mem_reverse.mp has,_,hs⟩
  · rintro ⟨ha,front,rfl⟩
    exact behindLast_append ha

/-- A piece is found in the list. -/
theorem infix_of_mem_piecesFrom {p piece s : List α} (h : p ∈ piecesFrom d piece s) :
    p <:+: piece++s := by
  induction s generalizing piece with
  | nil =>
      rw [List.append_nil]
      exact infix_of_mem_flush h
  | cons c s ih =>
      rw [piecesFrom] at h
      split at h
      · cases List.mem_append.mp h with
        | inl hfirst => exact List.infix_append_of_infix_left (infix_of_mem_flush hfirst)
        | inr hrest => exact List.infix_append_of_infix_right (List.infix_cons (ih hrest))
      · have hin := ih h
        rwa [List.append_assoc,List.singleton_append] at hin

theorem infix_of_mem_pieces {p s : List α} (h : p ∈ pieces d s) : p <:+: s :=
  infix_of_mem_piecesFrom h

end Ylrtc.Pieces
