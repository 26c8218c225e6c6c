import Mathlib.Data.List.GetD

/-!
# Memory with counted references

Blocks of memory that are given back when the last reference to them is dropped. A
reference is the position of its block: positions are never used again, addresses are.
-/
namespace Ylrtc.SharedPtr

structure Block where
  address : ℕ
  capacity : ℕ
  useCount : ℕ
  deriving DecidableEq, Repr

/-- Neither of two blocks has a byte of the other. -/
def Block.Apart (a b : Block) : Prop :=
  a.address+a.capacity ≤ b.address ∨ b.address+b.capacity ≤ a.address

abbrev Ref := ℕ
abbrev Heap := List Block

/-- The block of a reference. What was never made has no references. -/
def Heap.block (h : Heap) (p : Ref) : Block := h.getD p ⟨0,0,0⟩

def Heap.useCount (h : Heap) (p : Ref) : ℕ := (h.block p).useCount

/-- A block that no reference was made to before. The result is the reference `h.length`. -/
def Heap.make (h : Heap) (address capacity : ℕ) : Heap := h++[⟨address,capacity,1⟩]

def Heap.setCount (h : Heap) (p : Ref) (n : ℕ) : Heap := h.set p {h.block p with useCount := n}

def Heap.copy (h : Heap) (p : Ref) : Heap := h.setCount p (h.useCount p+1)

/-- A reference is dropped. The memory is given back when the count becomes zero. -/
def Heap.reset (h : Heap) (p : Ref) : Heap := h.setCount p (h.useCount p-1)

/-- The counts are those of the references there are. -/
def Heap.Counted (h : Heap) (refs : List Ref) : Prop := ∀ p, h.useCount p = refs.count p

/-- Memory that no block with references has a byte of. -/
def Heap.Free (h : Heap) (address capacity : ℕ) : Prop :=
  ∀ p, 0 < h.useCount p → (h.block p).Apart ⟨address,capacity,1⟩

/-- The blocks with references are apart. -/
def Heap.Separate (h : Heap) : Prop :=
  ∀ p q, p ≠ q → 0 < h.useCount p → 0 < h.useCount q → (h.block p).Apart (h.block q)

theorem Block.Apart.symm {a b : Block} (h : a.Apart b) : b.Apart a := Or.symm h

section Operations
variable {h : Heap} {p q : Ref} {address capacity n : ℕ} {refs : List Ref}

theorem lt_length_of_useCount (hp : 0 < h.useCount p) : p < h.length := by
  rcases Nat.lt_or_ge p h.length with hlt | hge
  · exact hlt
  · rw [Heap.useCount,Heap.block,List.getD_eq_default _ _ hge] at hp
    exact absurd hp (Nat.lt_irrefl 0)

theorem Heap.Counted.live (hc : h.Counted refs) (hp : p ∈ refs) : 0 < h.useCount p := by
  rw [hc]
  exact List.count_pos_iff.mpr hp

theorem block_make_self : (h.make address capacity).block h.length = ⟨address,capacity,1⟩ := by
  rw [Heap.block,Heap.make,List.getD_append_right _ _ _ _ (Nat.le_refl _),Nat.sub_self]
  rfl

theorem block_make (hq : q ≠ h.length) : (h.make address capacity).block q = h.block q := by
  rw [Heap.block,Heap.make,Heap.block]
  rcases Nat.lt_or_gt_of_ne hq with hlt | hgt
  · rw [List.getD_append _ _ _ _ hlt]
  · rw [List.getD_eq_default _ _ (Nat.le_of_lt hgt),List.getD_eq_default]
    rw [List.length_append]
    exact hgt

theorem block_setCount_self (hp : p < h.length) :
    (h.setCount p n).block p = {h.block p with useCount := n} := by
  rw [Heap.block,Heap.setCount,List.getD_eq_getElem?_getD,List.getElem?_set_self hp]
  rfl

theorem block_setCount (hq : q ≠ p) : (h.setCount p n).block q = h.block q := by
  rw [Heap.block,Heap.setCount,List.getD_eq_getElem?_getD,List.getElem?_set_ne hq.symm,
    ← List.getD_eq_getElem?_getD]
  rfl

/-- The memory of a block stays where it is. -/
theorem memory_setCount : ((h.setCount p n).block q).address = (h.block q).address ∧
    ((h.setCount p n).block q).capacity = (h.block q).capacity := by
  by_cases hq : q = p
  · subst hq
    by_cases hlt : q < h.length
    · rw [block_setCount_self hlt]
      exact ⟨rfl,rfl⟩
    · rw [Heap.setCount,List.set_eq_of_length_le (Nat.le_of_not_lt hlt)]
      exact ⟨rfl,rfl⟩
  · rw [block_setCount hq]
    exact ⟨rfl,rfl⟩

theorem apart_setCount {r s : Ref} :
    ((h.setCount p n).block r).Apart ((h.setCount p n).block s) ↔
      (h.block r).Apart (h.block s) := by
  simp only [Block.Apart,memory_setCount]

theorem useCount_setCount_self (hp : p < h.length) : (h.setCount p n).useCount p = n := by
  rw [Heap.useCount,block_setCount_self hp]

theorem useCount_setCount (hq : q ≠ p) : (h.setCount p n).useCount q = h.useCount q := by
  rw [Heap.useCount,block_setCount hq,Heap.useCount]

theorem Heap.Counted.perm {refs' : List Ref} (hc : h.Counted refs) (hp : refs.Perm refs') :
    h.Counted refs' := by
  intro p
  rw [hc,hp.count_eq]

theorem counted_make (hc : h.Counted refs) :
    (h.make address capacity).Counted (h.length::refs) := by
  intro q
  by_cases hq : q = h.length
  · subst hq
    have hzero : h.useCount h.length = 0 :=
      Nat.eq_zero_of_not_pos fun hpos => Nat.lt_irrefl _ (lt_length_of_useCount hpos)
    rw [Heap.useCount,block_make_self,List.count_cons_self,← hc,hzero]
  · rw [Heap.useCount,block_make hq,List.count_cons_of_ne (Ne.symm hq),← hc,Heap.useCount]

theorem counted_copy (hc : h.Counted refs) (hp : p ∈ refs) : (h.copy p).Counted (p::refs) := by
  have hlt := lt_length_of_useCount (hc.live hp)
  intro q
  by_cases hq : q = p
  · subst hq
    rw [Heap.copy,useCount_setCount_self hlt,hc,List.count_cons_self]
  · rw [Heap.copy,useCount_setCount hq,hc,List.count_cons_of_ne (Ne.symm hq)]

theorem counted_reset (hc : h.Counted (p::refs)) : (h.reset p).Counted refs := by
  have hlt := lt_length_of_useCount (hc.live List.mem_cons_self)
  intro q
  by_cases hq : q = p
  · subst hq
    rw [Heap.reset,useCount_setCount_self hlt,hc,List.count_cons_self,Nat.add_sub_cancel]
  · rw [Heap.reset,useCount_setCount hq,hc,List.count_cons_of_ne (Ne.symm hq)]

theorem separate_make (hs : h.Separate) (hfree : h.Free address capacity) :
    (h.make address capacity).Separate := by
  intro p q hpq hp hq
  rw [Heap.useCount] at hp hq
  by_cases hpn : p = h.length
  · have hqn : q ≠ h.length := fun hqn => hpq (hpn.trans hqn.symm)
    rw [block_make hqn] at hq ⊢
    rw [hpn,block_make_self]
    exact (hfree q hq).symm
  · rw [block_make hpn] at hp ⊢
    by_cases hqn : q = h.length
    · rw [hqn,block_make_self]
      exact hfree p hp
    · rw [block_make hqn] at hq ⊢
      exact hs p q hpq hp hq

/-- Counts that only change where there are references leave the blocks apart. -/
theorem separate_setCount (hs : h.Separate) (hp : 0 < h.useCount p) :
    (h.setCount p n).Separate := by
  have hlive : ∀ r, 0 < (h.setCount p n).useCount r → 0 < h.useCount r := by
    intro r hr
    by_cases hrp : r = p
    · rw [hrp]
      exact hp
    · rwa [useCount_setCount hrp] at hr
  intro r q hrq hr hq
  rw [apart_setCount]
  exact hs r q hrq (hlive r hr) (hlive q hq)

/-- The blocks there are, one by one. -/
theorem free_iff : h.Free address capacity ↔
    ∀ b ∈ h, 0 < b.useCount → b.Apart ⟨address,capacity,1⟩ := by
  constructor
  · intro hfree b hb
    obtain ⟨p,hp,rfl⟩ := List.mem_iff_getElem.mp hb
    have hblock : h.block p = h[p] := List.getD_eq_getElem _ _ hp
    have hpb := hfree p
    rwa [Heap.useCount,hblock] at hpb
  · intro hall p hp
    have hlt := lt_length_of_useCount hp
    rw [Heap.useCount] at hp
    rw [Heap.block,List.getD_eq_getElem _ _ hlt] at hp ⊢
    exact hall _ (List.getElem_mem hlt) hp

end Operations

instance (a b : Block) : Decidable (a.Apart b) :=
  inferInstanceAs (Decidable (_ ≤ _ ∨ _ ≤ _))

instance (h : Heap) (address capacity : ℕ) : Decidable (h.Free address capacity) :=
  decidable_of_iff _ free_iff.symm

end Ylrtc.SharedPtr
