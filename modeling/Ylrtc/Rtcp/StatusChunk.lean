import Mathlib.Algebra.Order.Group.Nat
import Mathlib.Data.List.Basic
import Mathlib.Tactic.SplitIfs

/-!
# Status chunks of a transport feedback

`TransportFeedback::LastChunk` of `rtp_rtcp/transport_feedback.cpp`: the pending
delta sizes that still fit into one 16-bit chunk, the three chunk encodings and
their decoders. A delta size is 0 (not received), 1 or 2 bytes.

The array `delta_sizes_` has 14 slots. The list here holds its written prefix;
slots from `size_` on are never read by the source.
-/
namespace Ylrtc.StatusChunk

abbrev Chunk := BitVec 16

abbrev kMaxRunLengthCapacity : ℕ := 0x1fff
abbrev kMaxOneBitCapacity : ℕ := 14
abbrev kMaxTwoBitCapacity : ℕ := 7
abbrev kMaxVectorCapacity : ℕ := kMaxOneBitCapacity
abbrev kLarge : ℕ := 2

structure LastChunk where
  deltaSizes : List ℕ
  size : ℕ
  allSame : Bool
  hasLargeDelta : Bool
  deriving DecidableEq, Repr

/-- The state `Clear` leaves. -/
def cleared : LastChunk := ⟨[],0,true,false⟩

def LastChunk.empty (c : LastChunk) : Bool := c.size == 0

/-- `delta_sizes_[0]`. -/
def LastChunk.first (c : LastChunk) : ℕ := c.deltaSizes.headD 0

def LastChunk.canAdd (c : LastChunk) (deltaSize : ℕ) : Bool :=
  if c.size < kMaxTwoBitCapacity then true
  else if c.size < kMaxOneBitCapacity && !c.hasLargeDelta && deltaSize != kLarge then true
  else if c.size < kMaxRunLengthCapacity && c.allSame && c.first == deltaSize then true
  else false

def LastChunk.add (c : LastChunk) (deltaSize : ℕ) : LastChunk :=
  let deltaSizes :=
    if c.size < kMaxVectorCapacity then c.deltaSizes++[deltaSize] else c.deltaSizes
  { deltaSizes := deltaSizes
    size := c.size+1
    allSame := c.allSame && deltaSize == deltaSizes.headD 0
    hasLargeDelta := c.hasLargeDelta || deltaSize == kLarge }

def LastChunk.encodeOneBit (c : LastChunk) : Chunk :=
  (List.range c.size).foldl
    (fun chunk i => chunk ||| BitVec.ofNat 16 (c.deltaSizes.getD i 0) <<< (kMaxOneBitCapacity-1-i))
    0x8000#16

def LastChunk.encodeTwoBit (c : LastChunk) (size : ℕ) : Chunk :=
  (List.range size).foldl
    (fun chunk i =>
      chunk ||| BitVec.ofNat 16 (c.deltaSizes.getD i 0) <<< (2*(kMaxTwoBitCapacity-1-i)))
    0xc000#16

def LastChunk.encodeRunLength (c : LastChunk) : Chunk :=
  BitVec.ofNat 16 c.first <<< 13 ||| BitVec.ofNat 16 c.size

/-- `Emit`: the chunk and what stays pending. -/
def LastChunk.emit (c : LastChunk) : Chunk × LastChunk :=
  if c.allSame then (c.encodeRunLength,cleared)
  else if c.size = kMaxOneBitCapacity then (c.encodeOneBit,cleared)
  else
    let rest := c.deltaSizes.drop kMaxTwoBitCapacity
    (c.encodeTwoBit kMaxTwoBitCapacity,
      { deltaSizes := rest
        size := c.size - kMaxTwoBitCapacity
        allSame := rest.all (· == rest.headD 0)
        hasLargeDelta := rest.any (· == kLarge) })

def LastChunk.encodeLast (c : LastChunk) : Chunk :=
  if c.allSame then c.encodeRunLength
  else if c.size ≤ kMaxTwoBitCapacity then c.encodeTwoBit c.size
  else c.encodeOneBit

def decodeOneBit (chunk : Chunk) (maxSize : ℕ) : LastChunk :=
  let size := min kMaxOneBitCapacity maxSize
  { deltaSizes := (List.range size).map
      fun i => (chunk >>> (kMaxOneBitCapacity-1-i) &&& 0x01#16).toNat
    size := size, allSame := false, hasLargeDelta := false }

def decodeTwoBit (chunk : Chunk) (maxSize : ℕ) : LastChunk :=
  let size := min kMaxTwoBitCapacity maxSize
  { deltaSizes := (List.range size).map
      fun i => (chunk >>> (2*(kMaxTwoBitCapacity-1-i)) &&& 0x03#16).toNat
    size := size, allSame := false, hasLargeDelta := true }

def decodeRunLength (chunk : Chunk) (maxCount : ℕ) : LastChunk :=
  let size := min (chunk &&& 0x1fff#16).toNat maxCount
  let deltaSize := (chunk >>> 13 &&& 0x03#16).toNat
  { deltaSizes := List.replicate (min size kMaxVectorCapacity) deltaSize
    size := size, allSame := true, hasLargeDelta := decide (kLarge ≤ deltaSize) }

def decode (chunk : Chunk) (maxSize : ℕ) : LastChunk :=
  if chunk &&& 0x8000#16 = 0#16 then decodeRunLength chunk maxSize
  else if chunk &&& 0x4000#16 = 0#16 then decodeOneBit chunk maxSize
  else decodeTwoBit chunk maxSize

/-- What `AppendTo` inserts. -/
def LastChunk.contents (c : LastChunk) : List ℕ :=
  if c.allSame then List.replicate c.size c.first else c.deltaSizes.take c.size

/-- The delta sizes a decoder that may take `maxSize` more reads from a chunk. -/
def symbols (chunk : Chunk) (maxSize : ℕ) : List ℕ := (decode chunk maxSize).contents

/-- The documented state of a chunk under construction. The last clause is the
capacity that `CanAdd` leaves: two-bit, one-bit or run-length. -/
structure LastChunk.WellFormed (c : LastChunk) : Prop where
  le_two : ∀ d ∈ c.deltaSizes, d ≤ 2
  length : c.deltaSizes.length = min c.size kMaxVectorCapacity
  allSame : c.allSame = true ↔ ∀ d ∈ c.deltaSizes, d = c.first
  large : c.hasLargeDelta = true ↔ 2 ∈ c.deltaSizes
  capacity : c.size ≤ 7 ∨ (c.size ≤ 14 ∧ 2 ∉ c.deltaSizes) ∨ (c.allSame = true ∧ c.size ≤ 8191)

theorem cleared_wellFormed : cleared.WellFormed :=
  ⟨by simp [cleared],rfl,by simp [cleared],by simp [cleared],Or.inl (by simp [cleared])⟩

@[simp] theorem cleared_contents : cleared.contents = [] := rfl

namespace LastChunk
variable {c : LastChunk}

theorem WellFormed.size_le_of_not_allSame (h : c.WellFormed) (ha : c.allSame = false) :
    c.size ≤ 14 ∧ c.deltaSizes.length = c.size := by
  have hl := h.length
  have hc := h.capacity
  simp only [ha,Bool.false_eq_true,false_and,or_false,kMaxVectorCapacity,kMaxOneBitCapacity]
    at hc hl
  omega

theorem WellFormed.contents_of_not_allSame (h : c.WellFormed) (ha : c.allSame = false) :
    c.contents = c.deltaSizes := by
  simp only [contents,ha,Bool.false_eq_true,if_false]
  exact List.take_of_length_le (h.size_le_of_not_allSame ha).2.le

theorem WellFormed.deltaSizes_eq_replicate (h : c.WellFormed) (ha : c.allSame = true) :
    c.deltaSizes = List.replicate (min c.size 14) c.first := by
  rw [List.eq_replicate_iff]
  exact ⟨h.length,h.allSame.mp ha⟩

@[simp] theorem WellFormed.contents_length (h : c.WellFormed) : c.contents.length = c.size := by
  cases ha : c.allSame with
  | true => simp [contents,ha]
  | false => rw [h.contents_of_not_allSame ha,(h.size_le_of_not_allSame ha).2]

theorem WellFormed.first_le (h : c.WellFormed) : c.first ≤ 2 := by
  have hd := h.le_two
  unfold first
  cases hs : c.deltaSizes with
  | nil => simp
  | cons d ds => exact hd d (by simp [hs])

theorem canAdd_iff (d : ℕ) : c.canAdd d = true ↔ c.size < 7 ∨
    (c.size < 14 ∧ c.hasLargeDelta = false ∧ d ≠ 2) ∨
    (c.size < 8191 ∧ c.allSame = true ∧ c.first = d) := by
  simp only [canAdd]
  split_ifs with h₁ h₂ h₃ <;> simp_all [and_assoc]

theorem size_add (c : LastChunk) (d : ℕ) : (c.add d).size = c.size+1 := rfl

theorem deltaSizes_add_of_lt (hs : c.size < 14) (d : ℕ) :
    (c.add d).deltaSizes = c.deltaSizes++[d] := by
  simp only [LastChunk.add,kMaxVectorCapacity,kMaxOneBitCapacity,hs,if_true]

theorem deltaSizes_add_of_le (hs : 14 ≤ c.size) (d : ℕ) : (c.add d).deltaSizes = c.deltaSizes := by
  simp only [LastChunk.add,kMaxVectorCapacity,kMaxOneBitCapacity,if_neg (Nat.not_lt.mpr hs)]

theorem allSame_add (c : LastChunk) (d : ℕ) :
    (c.add d).allSame = true ↔ c.allSame = true ∧ d = (c.add d).first := by
  simp only [LastChunk.add,first,Bool.and_eq_true,beq_iff_eq]

theorem hasLargeDelta_add (c : LastChunk) (d : ℕ) :
    (c.add d).hasLargeDelta = true ↔ c.hasLargeDelta = true ∨ d = 2 := by
  simp only [LastChunk.add,Bool.or_eq_true,beq_iff_eq,kLarge]

theorem first_add (hne : c.deltaSizes ≠ []) (d : ℕ) : (c.add d).first = c.first := by
  unfold first
  by_cases hs : c.size < 14
  · rw [deltaSizes_add_of_lt hs]
    cases hds : c.deltaSizes with
    | nil => exact absurd hds hne
    | cons _ _ => rfl
  · rw [deltaSizes_add_of_le (Nat.not_lt.mp hs)]

theorem WellFormed.length_eq (h : c.WellFormed) : c.deltaSizes.length = min c.size 14 := h.length

/-- From fourteen symbols on only a run of one symbol can grow. -/
theorem run_of_canAdd {d : ℕ} (hs : 14 ≤ c.size) (hc : c.canAdd d = true) :
    c.size < 8191 ∧ c.allSame = true ∧ c.first = d := by
  rw [canAdd_iff] at hc
  rcases hc with hc | hc | hc
  · omega
  · omega
  · exact hc

/-- The stored symbols are the old ones and the new one, stored or not. -/
theorem WellFormed.mem_add (h : c.WellFormed) {d : ℕ} (hc : c.canAdd d = true) (e : ℕ) :
    e ∈ (c.add d).deltaSizes ↔ e ∈ c.deltaSizes ∨ e = d := by
  by_cases hs : c.size < 14
  · rw [deltaSizes_add_of_lt hs,List.mem_append,List.mem_singleton]
  · have hrun := run_of_canAdd (Nat.not_lt.mp hs) hc
    have hmem : d ∈ c.deltaSizes := by
      rw [h.deltaSizes_eq_replicate hrun.2.1,List.mem_replicate]
      exact ⟨by omega,hrun.2.2.symm⟩
    rw [deltaSizes_add_of_le (Nat.not_lt.mp hs)]
    constructor
    · exact Or.inl
    · intro he
      cases he with
      | inl he => exact he
      | inr he => exact he ▸ hmem

theorem WellFormed.length_add (h : c.WellFormed) (d : ℕ) :
    (c.add d).deltaSizes.length = min (c.add d).size kMaxVectorCapacity := by
  have hlen := h.length_eq
  simp only [size_add,kMaxVectorCapacity,kMaxOneBitCapacity]
  by_cases hs : c.size < 14
  · rw [deltaSizes_add_of_lt hs,List.length_append,List.length_singleton]
    omega
  · rw [deltaSizes_add_of_le (Nat.not_lt.mp hs)]
    omega

theorem WellFormed.allSame_add_iff (h : c.WellFormed) {d : ℕ} (hc : c.canAdd d = true) :
    (c.add d).allSame = true ↔ ∀ e ∈ (c.add d).deltaSizes, e = (c.add d).first := by
  simp only [allSame_add,h.allSame,h.mem_add hc]
  by_cases hne : c.deltaSizes = []
  · simp [hne]
  · rw [first_add hne]
    constructor
    · intro hall e he
      cases he with
      | inl he => exact hall.1 e he
      | inr he => exact he.trans hall.2
    · intro hall
      exact ⟨fun e he => hall e (.inl he),hall d (.inr rfl)⟩

/-- The clause of the capacity follows the one of `CanAdd`. -/
theorem WellFormed.capacity_add (h : c.WellFormed) {d : ℕ} (hc : c.canAdd d = true) :
    (c.add d).size ≤ 7 ∨ ((c.add d).size ≤ 14 ∧ 2 ∉ (c.add d).deltaSizes) ∨
      ((c.add d).allSame = true ∧ (c.add d).size ≤ 8191) := by
  have hmem := h.mem_add hc 2
  rw [size_add]
  by_cases h7 : c.size < 7
  · left
    omega
  right
  rcases (canAdd_iff d).mp hc with hc | hc | hc
  · exact absurd hc h7
  · left
    refine ⟨by omega,fun htwo => ?_⟩
    rw [hmem,← h.large,hc.2.1] at htwo
    cases htwo with
    | inl hlarge => exact Bool.false_ne_true hlarge
    | inr heq => exact hc.2.2 heq.symm
  · right
    have hne : c.deltaSizes ≠ [] := by
      intro hnil
      have hlen := h.length_eq
      rw [hnil,List.length_nil] at hlen
      omega
    refine ⟨(allSame_add c d).mpr ⟨hc.2.1,?_⟩,by omega⟩
    rw [first_add hne]
    exact hc.2.2.symm

/-- Adding never leaves what one chunk can encode. -/
theorem WellFormed.add (h : c.WellFormed) {d : ℕ} (hd : d ≤ 2) (hc : c.canAdd d = true) :
    (c.add d).WellFormed where
  le_two e he := by
    cases (h.mem_add hc e).mp he with
    | inl he => exact h.le_two e he
    | inr he => exact he ▸ hd
  length := h.length_add d
  allSame := h.allSame_add_iff hc
  large := by
    rw [hasLargeDelta_add,h.mem_add hc,h.large,eq_comm (a := d)]
  capacity := h.capacity_add hc

/-- Below fourteen symbols the slots are the contents, however they are flagged. -/
theorem WellFormed.contents_eq (h : c.WellFormed) (hs : c.size ≤ 14) :
    c.contents = c.deltaSizes := by
  cases ha : c.allSame with
  | false => exact h.contents_of_not_allSame ha
  | true => rw [h.deltaSizes_eq_replicate ha,contents,if_pos ha,Nat.min_eq_left hs]

theorem WellFormed.contents_add (h : c.WellFormed) {d : ℕ} (hd : d ≤ 2) (hc : c.canAdd d = true) :
    (c.add d).contents = c.contents++[d] := by
  have hwf := h.add hd hc
  by_cases hs : c.size < 14
  · rw [hwf.contents_eq hs,h.contents_eq hs.le,deltaSizes_add_of_lt hs]
  · have hrun := run_of_canAdd (Nat.not_lt.mp hs) hc
    have hfirst : (c.add d).first = c.first := by
      rw [first,deltaSizes_add_of_le (Nat.not_lt.mp hs)]
      rfl
    have hsame : (c.add d).allSame = true :=
      (allSame_add c d).mpr ⟨hrun.2.1,hrun.2.2.symm.trans hfirst.symm⟩
    simp only [contents,hsame,hrun.2.1,if_true,hfirst,size_add,hrun.2.2,List.replicate_succ']

end LastChunk

/-! ### Symbol slots of the two vector encodings -/

section Slots
variable (cap base : ℕ) (sh : ℕ → ℕ) (mask init : Chunk)

/-- A slot of the accumulated chunk holds its symbol, or nothing yet, when
disjoint slots do not overlap. -/
theorem foldl_or_slot (hinit : ∀ i < cap, init >>> sh i &&& mask = 0#16)
    (hslot : ∀ i < cap, ∀ k < cap, ∀ d < base,
      (BitVec.ofNat 16 d <<< sh k) >>> sh i &&& mask = if i = k then BitVec.ofNat 16 d else 0#16)
    {sym : ℕ → ℕ} {n : ℕ} (hn : n ≤ cap) (hsym : ∀ k < n, sym k < base) {i : ℕ} (hi : i < cap) :
    ((List.range n).foldl (fun chunk k => chunk ||| BitVec.ofNat 16 (sym k) <<< sh k) init)
      >>> sh i &&& mask = if i < n then BitVec.ofNat 16 (sym i) else 0#16 := by
  induction n with
  | zero => simpa using hinit i hi
  | succ n ih =>
      rw [List.range_succ,List.foldl_append,List.foldl_cons,List.foldl_nil,
        BitVec.ushiftRight_or_distrib,BitVec.and_or_distrib_right,
        ih (by omega) (fun k hk => hsym k (by omega)),
        hslot i hi n (by omega) (sym n) (hsym n (by omega))]
      by_cases hin : i < n
      · rw [if_pos hin,if_neg (by omega),if_pos (by omega),BitVec.or_zero]
      · by_cases he : i = n
        · subst he
          rw [if_neg hin,if_pos rfl,if_pos (by omega),BitVec.zero_or]
        · rw [if_neg hin,if_neg he,if_neg (by omega),BitVec.or_zero]

/-- Symbols never touch the type bits. -/
theorem foldl_or_type (htype : ∀ k < cap, ∀ d < base, (BitVec.ofNat 16 d <<< sh k) &&& mask = 0#16)
    {sym : ℕ → ℕ} {n : ℕ} (hn : n ≤ cap) (hsym : ∀ k < n, sym k < base) :
    ((List.range n).foldl (fun chunk k => chunk ||| BitVec.ofNat 16 (sym k) <<< sh k) init)
      &&& mask = init &&& mask := by
  induction n with
  | zero => rfl
  | succ n ih =>
      rw [List.range_succ,List.foldl_append,List.foldl_cons,List.foldl_nil,
        BitVec.and_or_distrib_right,ih (by omega) (fun k hk => hsym k (by omega)),
        htype n (by omega) (sym n) (hsym n (by omega)),BitVec.or_zero]

end Slots

theorem oneBit_slot : ∀ i < 14, ∀ k < 14, ∀ d < 2,
    (BitVec.ofNat 16 d <<< (14-1-k)) >>> (14-1-i) &&& 0x01#16 =
      if i = k then BitVec.ofNat 16 d else 0#16 := by decide

theorem twoBit_slot : ∀ i < 7, ∀ k < 7, ∀ d < 4,
    (BitVec.ofNat 16 d <<< (2*(7-1-k))) >>> (2*(7-1-i)) &&& 0x03#16 =
      if i = k then BitVec.ofNat 16 d else 0#16 := by decide

/-- A decoded vector chunk with the right slots is the encoded list. -/
theorem map_slots_eq {slot : ℕ → ℕ} {l : List ℕ} {n : ℕ} (hl : l.length = n)
    (h : ∀ i < n, slot i = l.getD i 0) : (List.range n).map slot = l := by
  apply List.ext_getElem
  · simp [hl]
  · intro i hi _
    simp only [List.length_map,List.length_range] at hi
    rw [List.getElem_map,List.getElem_range,h i hi,List.getD_eq_getElem?_getD,
      List.getElem?_eq_getElem (by omega),Option.getD_some]

namespace LastChunk
variable {c : LastChunk}

theorem encodeOneBit_symbols {n : ℕ} (hn : c.deltaSizes.length = c.size) (hs : c.size ≤ 14)
    (hd : ∀ d ∈ c.deltaSizes, d < 2) (hmax : min 14 n = c.size) :
    symbols c.encodeOneBit n = c.deltaSizes := by
  have hsym : ∀ k < c.size, c.deltaSizes.getD k 0 < 2 := by
    intro k hk
    rw [List.getD_eq_getElem?_getD,List.getElem?_eq_getElem (by omega),Option.getD_some]
    exact hd _ (List.getElem_mem _)
  have h8 : c.encodeOneBit &&& 0x8000#16 = 0x8000#16 :=
    foldl_or_type 14 2 (fun k => 14-1-k) 0x8000#16 0x8000#16 (by decide) hs hsym
  have h4 : c.encodeOneBit &&& 0x4000#16 = 0x0000#16 :=
    foldl_or_type 14 2 (fun k => 14-1-k) 0x4000#16 0x8000#16 (by decide) hs hsym
  have hslots : (decodeOneBit c.encodeOneBit n).deltaSizes = c.deltaSizes := by
    simp only [decodeOneBit,hmax]
    refine map_slots_eq hn fun i hi => ?_
    have hslot := foldl_or_slot 14 2 (fun k => 14-1-k) 0x01#16 0x8000#16 (by decide)
      oneBit_slot hs hsym (i := i) (by omega)
    unfold encodeOneBit
    rw [hslot,if_pos hi,BitVec.toNat_ofNat]
    have := hsym i hi
    omega
  unfold symbols decode
  rw [if_neg (by rw [h8]; decide),if_pos h4]
  simp only [contents,hslots]
  simp only [decodeOneBit,Bool.false_eq_true,if_false]
  exact List.take_of_length_le (by rw [hn,hmax])

theorem encodeTwoBit_symbols {k n : ℕ} (hk : k ≤ c.deltaSizes.length) (hs : k ≤ 7)
    (hd : ∀ d ∈ c.deltaSizes, d ≤ 2) (hmax : min 7 n = k) :
    symbols (c.encodeTwoBit k) n = c.deltaSizes.take k := by
  have hsym : ∀ i < k, c.deltaSizes.getD i 0 < 4 := by
    intro i hi
    rw [List.getD_eq_getElem?_getD,List.getElem?_eq_getElem (by omega),Option.getD_some]
    have := hd _ (List.getElem_mem (by omega : i < c.deltaSizes.length))
    omega
  have h8 : c.encodeTwoBit k &&& 0x8000#16 = 0x8000#16 :=
    foldl_or_type 7 4 (fun i => 2*(7-1-i)) 0x8000#16 0xc000#16 (by decide) hs hsym
  have h4 : c.encodeTwoBit k &&& 0x4000#16 = 0x4000#16 :=
    foldl_or_type 7 4 (fun i => 2*(7-1-i)) 0x4000#16 0xc000#16 (by decide) hs hsym
  have hslots : (decodeTwoBit (c.encodeTwoBit k) n).deltaSizes = c.deltaSizes.take k := by
    simp only [decodeTwoBit,hmax]
    refine map_slots_eq (by rw [List.length_take]; omega) fun i hi => ?_
    have hslot := foldl_or_slot 7 4 (fun i => 2*(7-1-i)) 0x03#16 0xc000#16 (by decide)
      twoBit_slot hs hsym (i := i) (by omega)
    unfold encodeTwoBit
    rw [hslot,if_pos hi,BitVec.toNat_ofNat]
    have := hsym i hi
    rw [List.getD_eq_getElem?_getD,List.getD_eq_getElem?_getD,List.getElem?_take_of_lt hi] at *
    omega
  unfold symbols decode
  rw [if_neg (by rw [h8]; decide),if_neg (by rw [h4]; decide)]
  simp only [contents,hslots]
  simp only [decodeTwoBit,Bool.false_eq_true,if_false]
  exact List.take_of_length_le (by rw [List.length_take]; simp only [kMaxTwoBitCapacity]; omega)

theorem encodeRunLength_toNat (hf : c.first ≤ 2) (hs : c.size ≤ 8191) :
    c.encodeRunLength.toNat = c.first*8192 + c.size := by
  simp only [encodeRunLength,BitVec.toNat_or,BitVec.toNat_shiftLeft,BitVec.toNat_ofNat]
  rw [Nat.mod_eq_of_lt (show c.first < 2^16 by omega),
    Nat.mod_eq_of_lt (show c.size < 2^16 by omega),
    Nat.mod_eq_of_lt (show c.first <<< 13 < 2^16 by rw [Nat.shiftLeft_eq]; omega),
    ← Nat.shiftLeft_add_eq_or_of_lt (by omega),Nat.shiftLeft_eq]

theorem encodeRunLength_symbols {n : ℕ} (hf : c.first ≤ 2) (hs : c.size ≤ 8191)
    (hmax : c.size ≤ n) : symbols c.encodeRunLength n = List.replicate c.size c.first := by
  have hv := encodeRunLength_toNat hf hs
  have htype : c.encodeRunLength &&& 0x8000#16 = 0#16 := by
    have hlow : c.encodeRunLength &&& 0x7fff#16 = c.encodeRunLength := by
      apply BitVec.eq_of_toNat_eq
      rw [BitVec.toNat_and,show (0x7fff#16).toNat = 2^15-1 from rfl,Nat.and_two_pow_sub_one_eq_mod]
      omega
    rw [← hlow,BitVec.and_assoc,show 0x7fff#16 &&& 0x8000#16 = 0#16 from rfl,BitVec.and_zero]
  have hsize : (c.encodeRunLength &&& 0x1fff#16).toNat = c.size := by
    rw [BitVec.toNat_and,show (0x1fff#16).toNat = 2^13-1 from rfl,Nat.and_two_pow_sub_one_eq_mod]
    omega
  have hsym : (c.encodeRunLength >>> 13 &&& 0x03#16).toNat = c.first := by
    rw [BitVec.toNat_and,show (0x03#16).toNat = 2^2-1 from rfl,Nat.and_two_pow_sub_one_eq_mod,
      BitVec.toNat_ushiftRight,Nat.shiftRight_eq_div_pow]
    omega
  unfold symbols decode
  rw [if_pos htype]
  simp only [contents,decodeRunLength,hsize,hsym,if_true,Nat.min_eq_left hmax,first]
  cases hz : c.size with
  | zero => rfl
  | succ k =>
      have hm : min (k+1) 14 = min k 13 + 1 := by omega
      rw [kMaxVectorCapacity,kMaxOneBitCapacity,hm]
      simp only [List.replicate_succ,List.headD_cons]

/-- More than seven symbols, not all the same, have one bit each. -/
theorem WellFormed.lt_two (h : c.WellFormed) (ha : c.allSame = false) (hs : 7 < c.size) :
    ∀ d ∈ c.deltaSizes, d < 2 := by
  intro d hd
  have hle := h.le_two d hd
  rcases h.capacity with hc | hc | hc
  · omega
  · have hne : d ≠ 2 := fun heq => hc.2 (heq ▸ hd)
    omega
  · rw [ha] at hc
    exact absurd hc.1 Bool.false_ne_true

/-- `EncodeLast`, decoded up to the number of pending symbols, is their list. -/
theorem WellFormed.encodeLast_symbols (h : c.WellFormed) :
    symbols c.encodeLast c.size = c.contents := by
  have hcap := h.capacity
  unfold encodeLast
  cases ha : c.allSame with
  | true =>
      rw [if_pos rfl,encodeRunLength_symbols h.first_le (by omega) le_rfl,contents,if_pos ha]
  | false =>
      have hlen := (h.size_le_of_not_allSame ha).2
      rw [h.contents_of_not_allSame ha,if_neg (by simp)]
      simp only [ha,Bool.false_eq_true,false_and,or_false] at hcap
      by_cases h7 : c.size ≤ 7
      · rw [if_pos h7,encodeTwoBit_symbols hlen.ge h7 h.le_two (by omega),
          List.take_of_length_le hlen.le]
      · rw [if_neg h7,encodeOneBit_symbols hlen (by omega) (h.lt_two ha (by omega)) (by omega)]

/-- `Emit` splits the pending symbols into a chunk, which a decoder reads back
in full whenever it may take that many, and fewer than seven that stay. -/
theorem WellFormed.emit_spec (h : c.WellFormed) {d : ℕ} (hc : c.canAdd d = false) :
    c.emit.2.WellFormed ∧ c.emit.2.size < 7 ∧
      ∃ emitted, c.contents = emitted++c.emit.2.contents ∧ emitted ≠ [] ∧
        ∀ n, emitted.length ≤ n → symbols c.emit.1 n = emitted := by
  have hcap := h.capacity
  have hfull : 7 ≤ c.size := by
    have hn := (canAdd_iff (c := c) d).not.mp (by simp [hc])
    omega
  cases ha : c.allSame with
  | true =>
      have hrep : c.contents = List.replicate c.size c.first := by rw [contents,if_pos ha]
      have hem : c.emit = (c.encodeRunLength,cleared) := by rw [emit,if_pos ha]
      rw [hem]
      refine ⟨cleared_wellFormed,by simp [cleared],c.contents,by simp,?_,?_⟩
      · rw [← List.length_pos_iff,h.contents_length]
        omega
      · intro n hn
        rw [h.contents_length] at hn
        rw [hrep,encodeRunLength_symbols h.first_le (by omega) hn]
  | false =>
      have hlen := (h.size_le_of_not_allSame ha)
      have hcont := h.contents_of_not_allSame ha
      simp only [ha,Bool.false_eq_true,false_and,or_false] at hcap
      by_cases h14 : c.size = 14
      · have hem : c.emit = (c.encodeOneBit,cleared) := by
          rw [emit,if_neg (by simp [ha]),if_pos h14]
        rw [hem]
        refine ⟨cleared_wellFormed,by simp [cleared],c.contents,by simp,?_,?_⟩
        · rw [← List.length_pos_iff,h.contents_length]
          omega
        · intro n hn
          rw [h.contents_length] at hn
          rw [hcont,encodeOneBit_symbols hlen.2 (by omega) (h.lt_two ha (by omega)) (by omega)]
      · -- seven symbols leave in a two-bit chunk and the tail is flagged anew
        have hem : c.emit = (c.encodeTwoBit 7,
            ⟨c.deltaSizes.drop 7,c.size-7,
              (c.deltaSizes.drop 7).all (· == (c.deltaSizes.drop 7).headD 0),
              (c.deltaSizes.drop 7).any (· == 2)⟩) := by
          rw [emit,if_neg (by simp [ha]),if_neg h14]
        have htail : (c.deltaSizes.drop 7).length = c.size-7 := by
          rw [List.length_drop,hlen.2]
        have hwf : c.emit.2.WellFormed := by
          rw [hem]
          refine ⟨fun d hd => h.le_two d (List.mem_of_mem_drop hd),?_,?_,?_,Or.inl ?_⟩
          · simp only [htail,kMaxVectorCapacity,kMaxOneBitCapacity]
            omega
          · simp only [List.all_eq_true,beq_iff_eq,first]
          · simp only [List.any_eq_true,beq_iff_eq,exists_eq_right]
          · simp only
            omega
        have hrest : c.emit.2.contents = c.deltaSizes.drop 7 := by
          rw [hwf.contents_eq (by rw [hem]; simp only; omega),hem]
        refine ⟨hwf,by rw [hem]; simp only; omega,c.deltaSizes.take 7,?_,?_,?_⟩
        · rw [hrest,hcont,List.take_append_drop]
        · rw [← List.length_pos_iff,List.length_take]
          omega
        · intro n hn
          rw [List.length_take] at hn
          rw [hem]
          exact encodeTwoBit_symbols (by omega) le_rfl h.le_two (by omega)

end LastChunk

end Ylrtc.StatusChunk
