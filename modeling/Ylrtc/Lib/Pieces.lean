import Mathlib.Data.List.Basic

/-!
# The nonempty pieces of a list

A list taken apart at a delimiter, where empty pieces are left out. What was joined comes
back only if no part is empty or has the delimiter in it.
-/
namespace Ylrtc.Pieces
variable {α : Type}

/-- A piece, if there is one. -/
def flush (piece : List α) : List (List α) := if piece = [] then [] else [piece]

@[simp] theorem flush_nil : flush ([] : List α) = [] := rfl

theorem flush_of_ne {piece : List α} (h : piece ≠ []) : flush piece = [piece] := if_neg h

variable [DecidableEq α] {d : α}

def piecesFrom (d : α) : List α → List α → List (List α)
  | piece,[] => flush piece
  | piece,c::s => if c = d then flush piece ++ piecesFrom d [] s else piecesFrom d (piece++[c]) s

def pieces (d : α) (s : List α) : List (List α) := piecesFrom d [] s

theorem piecesFrom_append {a : List α} (h : d ∉ a) (piece s : List α) :
    piecesFrom d piece (a++s) = piecesFrom d (piece++a) s := by
  induction a generalizing piece with
  | nil => rw [List.nil_append,List.append_nil]
  | cons c a ih =>
      rw [List.mem_cons,not_or] at h
      rw [List.cons_append,piecesFrom,if_neg (Ne.symm h.1),ih h.2,List.append_assoc,
        List.singleton_append]

theorem pieces_of_not_mem {a : List α} (h : d ∉ a) : pieces d a = flush a := by
  have hall := piecesFrom_append h [] []
  rwa [List.append_nil,List.nil_append] at hall

theorem pieces_append_delim {a : List α} (h : d ∉ a) (s : List α) :
    pieces d (a++d::s) = flush a ++ pieces d s := by
  rw [pieces,piecesFrom_append h,List.nil_append,piecesFrom,if_pos rfl]
  rfl

/-- No piece is empty or has the delimiter in it. -/
theorem mem_piecesFrom {piece s : List α} (hpiece : d ∉ piece) :
    ∀ p ∈ piecesFrom d piece s, p ≠ [] ∧ d ∉ p := by
  have hflush : ∀ {piece : List α}, d ∉ piece → ∀ p ∈ flush piece, p ≠ [] ∧ d ∉ p := by
    intro piece hpiece p hp
    rw [flush] at hp
    split at hp
    · exact absurd hp List.not_mem_nil
    · rw [List.mem_singleton.mp hp]
      exact ⟨‹_›,hpiece⟩
  induction s generalizing piece with
  | nil => exact hflush hpiece
  | cons c s ih =>
      rw [piecesFrom]
      split
      · intro p hp
        cases List.mem_append.mp hp with
        | inl hfirst => exact hflush hpiece p hfirst
        | inr hrest => exact ih List.not_mem_nil p hrest
      · rename_i hc
        apply ih
        rw [List.mem_append,List.mem_singleton,not_or]
        exact ⟨hpiece,Ne.symm hc⟩

theorem mem_pieces {s : List α} : ∀ p ∈ pieces d s, p ≠ [] ∧ d ∉ p :=
  mem_piecesFrom List.not_mem_nil

/-- Two parts come back as they were joined exactly when the second is one piece and the
first is one too. -/
theorem pieces_join_iff {a b : List α} (hb : d ∉ b) (hne : b ≠ []) :
    pieces d (a++d::b) = [a,b] ↔ a ≠ [] ∧ d ∉ a := by
  constructor
  · intro h
    exact mem_pieces a (h ▸ List.mem_cons_self)
  · intro h
    rw [pieces_append_delim h.2,pieces_of_not_mem hb,flush_of_ne h.1,flush_of_ne hne]
    rfl

end Ylrtc.Pieces
