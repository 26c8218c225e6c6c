import Mathlib.Data.List.Induction
import Mathlib.Data.List.ModifyLast
import Mathlib.Order.Basic
import Mathlib.Order.Lattice

/-!
# Buckets of a window

Items that come in the order of their keys, with those of one key in one bucket. Old buckets
leave at the front.
-/
namespace Ylrtc.TimeBuckets

structure Bucket (κ α : Type) where
  key : κ
  items : List α

section Items
variable {κ α : Type}

/-- The items with their keys, in order. -/
def items (bs : List (Bucket κ α)) : List (κ × α) := bs.flatMap fun b => b.items.map (Prod.mk b.key)

theorem items_cons (b : Bucket κ α) (bs : List (Bucket κ α)) :
    items (b::bs) = b.items.map (Prod.mk b.key) ++ items bs := List.flatMap_cons

theorem items_append (bs cs : List (Bucket κ α)) : items (bs++cs) = items bs ++ items cs :=
  List.flatMap_append

theorem mem_items {bs : List (Bucket κ α)} {x : κ × α} (h : x ∈ items bs) :
    ∃ b ∈ bs, b.key = x.1 := by
  cases List.mem_flatMap.mp h with
  | intro b hb =>
      cases List.mem_map.mp hb.2 with
      | intro a ha => exact ⟨b,hb.1,congrArg Prod.fst ha.2⟩

variable [DecidableEq κ]

/-- An item goes to the last bucket, if it has its key. -/
def add (bs : List (Bucket κ α)) (k : κ) (a : α) : List (Bucket κ α) :=
  match bs.getLast? with
  | none => [⟨k,[a]⟩]
  | some b =>
      if b.key = k then bs.modifyLast fun b => { b with items := b.items ++ [a] }
      else bs ++ [⟨k,[a]⟩]

theorem add_concat_eq (bs : List (Bucket κ α)) (b : Bucket κ α) (a : α) :
    add (bs++[b]) b.key a = bs ++ [{ b with items := b.items ++ [a] }] := by
  rw [add,List.getLast?_concat]
  exact (if_pos rfl).trans (List.modifyLast_concat _ b bs)

theorem add_concat_ne {b : Bucket κ α} {k : κ} (h : b.key ≠ k) (bs : List (Bucket κ α)) (a : α) :
    add (bs++[b]) k a = bs ++ [b] ++ [⟨k,[a]⟩] := by
  rw [add,List.getLast?_concat]
  exact if_neg h

theorem items_add (bs : List (Bucket κ α)) (k : κ) (a : α) :
    items (add bs k a) = items bs ++ [(k,a)] := by
  cases bs using List.reverseRecOn with
  | nil => rfl
  | append_singleton bs b =>
      by_cases h : b.key = k
      · subst h
        rw [add_concat_eq,items_append,items_append,items_cons,items_cons,List.map_append]
        simp only [List.append_assoc]
        rfl
      · rw [add_concat_ne h,items_append]
        rfl

end Items

section Order
variable {κ α : Type} [LinearOrder κ]

/-- The buckets have items, and come in the order of their keys. -/
structure Ordered (bs : List (Bucket κ α)) : Prop where
  keys : bs.Pairwise fun b c => b.key < c.key
  filled : ∀ b ∈ bs, b.items ≠ []

theorem ordered_nil : Ordered ([] : List (Bucket κ α)) := ⟨List.Pairwise.nil,nofun⟩

/-- The buckets in front of a key leave. -/
def evict (oldest : κ) (bs : List (Bucket κ α)) : List (Bucket κ α) :=
  bs.dropWhile fun b => b.key < oldest

theorem Ordered.evict {bs : List (Bucket κ α)} (h : Ordered bs) (oldest : κ) :
    Ordered (evict oldest bs) where
  keys := h.keys.sublist (List.dropWhile_sublist _)
  filled b hb := h.filled b ((List.dropWhile_sublist _).subset hb)

/-- What stays are the items from the key on. -/
theorem items_evict {bs : List (Bucket κ α)} (h : Ordered bs) (oldest : κ) :
    items (TimeBuckets.evict oldest bs) = (items bs).filter fun x => oldest ≤ x.1 := by
  induction bs with
  | nil => rfl
  | cons b bs ih =>
      have hrest : Ordered bs := ⟨h.keys.of_cons,fun c hc => h.filled c (List.mem_cons_of_mem _ hc)⟩
      rw [TimeBuckets.evict,List.dropWhile_cons]
      by_cases hold : b.key < oldest
      · rw [if_pos (decide_eq_true hold),items_cons,List.filter_append]
        have hnone : (b.items.map (Prod.mk b.key)).filter (fun x => oldest ≤ x.1) = [] := by
          apply List.filter_eq_nil_iff.mpr
          intro x hx
          cases List.mem_map.mp hx with
          | intro a ha =>
              rw [← ha.2,decide_eq_true_eq]
              exact not_le.mpr hold
        rw [hnone,List.nil_append]
        exact ih hrest
      · rw [if_neg (by rw [decide_eq_true_eq]; exact hold)]
        apply (List.filter_eq_self.mpr _).symm
        intro x hx
        cases mem_items hx with
        | intro c hc =>
            rw [decide_eq_true_eq,← hc.2]
            cases List.mem_cons.mp hc.1 with
            | inl hsame =>
                rw [hsame]
                exact not_lt.mp hold
            | inr hlater =>
                exact (not_lt.mp hold).trans (List.rel_of_pairwise_cons h.keys hlater).le

theorem Ordered.key_le {bs : List (Bucket κ α)} (h : Ordered bs) {k : κ}
    (hk : ∀ x ∈ items bs, x.1 ≤ k) {b : Bucket κ α} (hb : b ∈ bs) : b.key ≤ k := by
  cases hitems : b.items with
  | nil => exact absurd hitems (h.filled b hb)
  | cons x xs =>
      apply hk (b.key,x)
      apply List.mem_flatMap.mpr
      refine ⟨b,hb,?_⟩
      rw [hitems]
      exact List.mem_cons_self

/-- An item with a key that is not in front of the others. -/
theorem Ordered.add {bs : List (Bucket κ α)} (h : Ordered bs) {k : κ}
    (hk : ∀ x ∈ items bs, x.1 ≤ k) (a : α) : Ordered (add bs k a) := by
  cases bs using List.reverseRecOn with
  | nil =>
      exact ⟨List.pairwise_singleton _ _,fun b hb => by rw [List.mem_singleton.mp hb]; simp⟩
  | append_singleton bs b =>
      have hkeys := List.pairwise_append.mp h.keys
      by_cases hsame : b.key = k
      · subst hsame
        rw [add_concat_eq]
        constructor
        · apply List.pairwise_append.mpr
          refine ⟨hkeys.1,List.pairwise_singleton _ _,fun c hc d hd => ?_⟩
          rw [List.mem_singleton.mp hd]
          exact hkeys.2.2 c hc b (List.mem_singleton_self b)
        · intro c hc
          cases List.mem_append.mp hc with
          | inl hearlier => exact h.filled c (List.mem_append_left _ hearlier)
          | inr hlast =>
              rw [List.mem_singleton.mp hlast]
              simp
      · rw [add_concat_ne hsame]
        have hlast : b.key < k := lt_of_le_of_ne
          (h.key_le hk (List.mem_append_right _ (List.mem_singleton_self b))) hsame
        constructor
        · apply List.pairwise_append.mpr
          refine ⟨h.keys,List.pairwise_singleton _ _,fun c hc d hd => ?_⟩
          rw [List.mem_singleton.mp hd]
          cases List.mem_append.mp hc with
          | inl hearlier => exact (hkeys.2.2 c hearlier b (List.mem_singleton_self b)).trans hlast
          | inr hsame' =>
              rw [List.mem_singleton.mp hsame']
              exact hlast
        · intro c hc
          cases List.mem_append.mp hc with
          | inl hearlier => exact h.filled c hearlier
          | inr hnew =>
              rw [List.mem_singleton.mp hnew]
              simp

end Order
end Ylrtc.TimeBuckets
