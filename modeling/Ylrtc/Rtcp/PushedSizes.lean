import Mathlib.Data.List.Induction
import Ylrtc.Rtcp.FeedbackBuilder

/-!
# Delta sizes pushed into chunks

What `AddDeltaSize` does with the pending chunk, under every assertion of `LastChunk`, and
what a reader of the chunks gets. An operation whose assertion fails, or that encodes a
symbol or a size its chunk has no room for, has no result here.
-/
namespace Ylrtc.StatusChunk
open FeedbackBuilder

namespace LastChunk

/-- The symbols that a vector chunk takes are written and have the bits of a slot. -/
def SymbolsFit (c : LastChunk) (size base : ℕ) : Prop :=
  size ≤ c.deltaSizes.length ∧ ∀ d ∈ c.deltaSizes.take size, d < base

instance (c : LastChunk) (size base : ℕ) : Decidable (c.SymbolsFit size base) := by
  unfold SymbolsFit
  infer_instance

/-- The assertions of `EncodeOneBit`, and that it has slots of one bit. -/
def OneBitFits (c : LastChunk) : Prop :=
  c.hasLargeDelta = false ∧ c.size ≤ kMaxOneBitCapacity ∧ c.SymbolsFit c.size 2

/-- The assertion of `EncodeTwoBit`, and that it has seven slots of two bits. -/
def TwoBitFits (c : LastChunk) (size : ℕ) : Prop :=
  size ≤ c.size ∧ size ≤ kMaxTwoBitCapacity ∧ c.SymbolsFit size 4

/-- The assertions of `EncodeRunLength`, and that it has two bits for its symbol. -/
def RunLengthFits (c : LastChunk) : Prop :=
  c.allSame = true ∧ c.size ≤ kMaxRunLengthCapacity ∧ c.SymbolsFit 1 4

instance (c : LastChunk) : Decidable c.OneBitFits := by
  unfold OneBitFits
  infer_instance

instance (c : LastChunk) (size : ℕ) : Decidable (c.TwoBitFits size) := by
  unfold TwoBitFits
  infer_instance

instance (c : LastChunk) : Decidable c.RunLengthFits := by
  unfold RunLengthFits
  infer_instance

/-- The assertions on the path of `Add`. -/
def MayAdd (c : LastChunk) (deltaSize : ℕ) : Prop := deltaSize ≤ 2 ∧ c.canAdd deltaSize = true

/-- The assertions on the path of `Emit`. -/
def MayEmit (c : LastChunk) : Prop :=
  (c.canAdd 0 = false ∨ c.canAdd 1 = false ∨ c.canAdd 2 = false) ∧
    if c.allSame then c.RunLengthFits
    else if c.size = kMaxOneBitCapacity then c.OneBitFits
    else kMaxTwoBitCapacity ≤ c.size ∧ c.TwoBitFits kMaxTwoBitCapacity

/-- The assertions on the path of `EncodeLast`. -/
def MayEncodeLast (c : LastChunk) : Prop :=
  0 < c.size ∧
    if c.allSame then c.RunLengthFits
    else if c.size ≤ kMaxTwoBitCapacity then c.TwoBitFits c.size
    else c.OneBitFits

instance (c : LastChunk) (deltaSize : ℕ) : Decidable (c.MayAdd deltaSize) := by
  unfold MayAdd
  infer_instance

instance (c : LastChunk) : Decidable c.MayEmit := by
  unfold MayEmit
  infer_instance

instance (c : LastChunk) : Decidable c.MayEncodeLast := by
  unfold MayEncodeLast
  infer_instance

example : ¬ cleared.MayEmit ∧ ¬ cleared.MayEncodeLast := by decide

end LastChunk

/-- Chunks that were emitted, and the pending one. -/
abbrev Chunks := List Chunk × LastChunk

/-- What `AddDeltaSize` does with the chunks. -/
def push (p : Chunks) (deltaSize : ℕ) : Option Chunks :=
  let ⟨chunks,c⟩ := p
  if 2 < deltaSize then none
  else if c.canAdd deltaSize then
    if c.MayAdd deltaSize then some (chunks,c.add deltaSize) else none
  else if c.MayEmit then
    let ⟨chunk,rest⟩ := c.emit
    if rest.MayAdd deltaSize then some (chunks++[chunk],rest.add deltaSize) else none
  else none

def pushAll (deltaSizes : List ℕ) : Option Chunks := deltaSizes.foldlM push ([],cleared)

/-- A reader that takes from each emitted chunk all it has, up to `limit`, and from the last
chunk what is left of `count`. A chunk without a symbol is not written. -/
def decodeAll (limit count : ℕ) (p : Chunks) : Option (List ℕ) :=
  let deltaSizes := p.1.flatMap (symbols · limit)
  if p.2.empty then some deltaSizes
  else if p.2.MayEncodeLast then
    some (deltaSizes++symbols p.2.encodeLast (count-deltaSizes.length))
  else none

/-! ### Assertions -/

namespace LastChunk
variable {c : LastChunk}

theorem WellFormed.symbolsFit (h : c.WellFormed) {size : ℕ} (hs : size ≤ c.deltaSizes.length) :
    c.SymbolsFit size 4 := by
  constructor
  · exact hs
  · intro d hd
    have hle := h.le_two d (List.mem_of_mem_take hd)
    omega

theorem WellFormed.runLengthFits (h : c.WellFormed) (ha : c.allSame = true) (hs : 0 < c.size) :
    c.RunLengthFits := by
  have hlen := h.length_eq
  have hcap := h.capacity
  constructor
  · exact ha
  · constructor
    · simp only [kMaxRunLengthCapacity]
      omega
    · apply h.symbolsFit
      omega

theorem WellFormed.twoBitFits (h : c.WellFormed) (ha : c.allSame = false) {size : ℕ}
    (hs : size ≤ c.size) (h7 : size ≤ 7) : c.TwoBitFits size := by
  have hlen := h.size_le_of_not_allSame ha
  constructor
  · exact hs
  · constructor
    · exact h7
    · apply h.symbolsFit
      omega

/-- A symbol of two bytes is flagged as one. -/
theorem WellFormed.oneBitFits (h : c.WellFormed) (ha : c.allSame = false) (h7 : 7 < c.size) :
    c.OneBitFits := by
  have hlen := h.size_le_of_not_allSame ha
  have htwo := h.lt_two ha h7
  constructor
  · rw [Bool.eq_false_iff,ne_eq,h.large]
    intro hmem
    exact absurd (htwo 2 hmem) (lt_irrefl 2)
  · constructor
    · exact hlen.1
    · constructor
      · exact hlen.2.ge
      · intro d hd
        exact htwo d (List.mem_of_mem_take hd)

theorem seven_le_of_canAdd {d : ℕ} (hc : c.canAdd d = false) : 7 ≤ c.size := by
  have hfull := (canAdd_iff (c := c) d).not.mp (by rw [hc]; decide)
  omega

theorem WellFormed.mayEmit (h : c.WellFormed) {d : ℕ} (hd : d ≤ 2) (hc : c.canAdd d = false) :
    c.MayEmit := by
  have hseven := seven_le_of_canAdd hc
  constructor
  · match d with
    | 0 => exact .inl hc
    | 1 => exact .inr (.inl hc)
    | 2 => exact .inr (.inr hc)
  · cases ha : c.allSame with
    | true =>
        rw [if_pos rfl]
        exact h.runLengthFits ha (by omega)
    | false =>
        rw [if_neg Bool.false_ne_true]
        by_cases h14 : c.size = kMaxOneBitCapacity
        · rw [if_pos h14]
          exact h.oneBitFits ha (by rw [h14]; decide)
        · rw [if_neg h14]
          exact ⟨hseven,h.twoBitFits ha hseven le_rfl⟩

theorem WellFormed.mayEncodeLast (h : c.WellFormed) (hs : 0 < c.size) : c.MayEncodeLast := by
  constructor
  · exact hs
  · cases ha : c.allSame with
    | true =>
        rw [if_pos rfl]
        exact h.runLengthFits ha hs
    | false =>
        rw [if_neg Bool.false_ne_true]
        by_cases h7 : c.size ≤ kMaxTwoBitCapacity
        · rw [if_pos h7]
          exact h.twoBitFits ha le_rfl h7
        · rw [if_neg h7]
          exact h.oneBitFits ha (Nat.not_le.mp h7)

theorem mayAdd_of_size_lt {d : ℕ} (hd : d ≤ 2) (hs : c.size < 7) : c.MayAdd d :=
  ⟨hd,(canAdd_iff d).mpr (.inl hs)⟩

end LastChunk

/-! ### Reading -/

/-- No chunk has more symbols than a run. -/
theorem length_symbols_le (chunk : Chunk) (n : ℕ) :
    (symbols chunk n).length ≤ kMaxRunLengthCapacity := by
  have hrun : (chunk &&& 0x1fff#16).toNat ≤ kMaxRunLengthCapacity := by
    rw [BitVec.toNat_and]
    exact Nat.and_le_right
  unfold symbols decode
  split_ifs
  · simp only [LastChunk.contents,decodeRunLength,if_true,List.length_replicate]
    exact (min_le_left _ n).trans hrun
  · simp only [LastChunk.contents,decodeOneBit,Bool.false_eq_true,if_false,List.length_take,
      List.length_map,List.length_range,kMaxOneBitCapacity,kMaxRunLengthCapacity]
    omega
  · simp only [LastChunk.contents,decodeTwoBit,Bool.false_eq_true,if_false,List.length_take,
      List.length_map,List.length_range,kMaxTwoBitCapacity,kMaxRunLengthCapacity]
    omega

theorem flatMap_symbols_of_full {chunks : List Chunk} {emitted : List ℕ}
    (h : TransportFeedback.Full chunks emitted) {limit : ℕ}
    (hlimit : kMaxRunLengthCapacity ≤ limit) : chunks.flatMap (symbols · limit) = emitted := by
  induction h with
  | nil => rfl
  | @cons chunk chunks emitted rest _ hread _ ih =>
      have hlength : emitted.length ≤ kMaxRunLengthCapacity := by
        rw [← hread emitted.length le_rfl]
        exact length_symbols_le chunk emitted.length
      rw [List.flatMap_cons,hread limit (hlength.trans hlimit),ih]

/-! ### Pushing -/

/-- The chunks hold the delta sizes that were pushed. -/
structure Holds (p : Chunks) (deltaSizes : List ℕ) : Prop where
  pending : p.2.WellFormed
  split : ∃ emitted, TransportFeedback.Full p.1 emitted ∧ deltaSizes = emitted++p.2.contents

theorem holds_cleared : Holds ([],cleared) [] := ⟨cleared_wellFormed,[],.nil,rfl⟩

/-- A delta size is pushed under all assertions. -/
theorem Holds.push {p : Chunks} {deltaSizes : List ℕ} (h : Holds p deltaSizes) {d : ℕ}
    (hd : d ≤ 2) : ∃ p', push p d = some p' ∧ Holds p' (deltaSizes++[d]) := by
  obtain ⟨chunks,c⟩ := p
  obtain ⟨emitted,hfull,rfl⟩ := h.split
  have hwf : c.WellFormed := h.pending
  simp only [StatusChunk.push,if_neg (Nat.not_lt.mpr hd)]
  cases hc : c.canAdd d with
  | true =>
      rw [if_pos rfl,if_pos ⟨hd,hc⟩]
      refine ⟨_,rfl,hwf.add hd hc,emitted,hfull,?_⟩
      rw [hwf.contents_add hd hc,List.append_assoc]
  | false =>
      obtain ⟨hrest,hsize,out,hout,hne,hread⟩ := hwf.emit_spec hc
      have hmay := LastChunk.mayAdd_of_size_lt hd hsize
      rw [if_neg Bool.false_ne_true,if_pos (hwf.mayEmit hd hc),if_pos hmay]
      refine ⟨_,rfl,hrest.add hd hmay.2,emitted++out,hfull.snoc hne hread,?_⟩
      rw [hout,hrest.contents_add hd hmay.2]
      simp only [List.append_assoc]

theorem holds_pushAll {deltaSizes : List ℕ} (h : ∀ d ∈ deltaSizes, d ≤ 2) :
    ∃ p, pushAll deltaSizes = some p ∧ Holds p deltaSizes := by
  induction deltaSizes using List.reverseRecOn with
  | nil => exact ⟨_,rfl,holds_cleared⟩
  | append_singleton deltaSizes d ih =>
      simp only [List.mem_append,List.mem_singleton] at h
      obtain ⟨p,hp,hholds⟩ := ih fun x hx => h x (.inl hx)
      obtain ⟨p',hp',hholds'⟩ := hholds.push (h d (.inr rfl))
      refine ⟨p',?_,hholds'⟩
      rw [pushAll,List.foldlM_append]
      rw [pushAll] at hp
      rw [hp]
      simp [hp']

/-- Chunks are read back as what they hold. -/
theorem Holds.decodeAll {p : Chunks} {deltaSizes : List ℕ} (h : Holds p deltaSizes) {limit : ℕ}
    (hlimit : kMaxRunLengthCapacity ≤ limit) :
    decodeAll limit deltaSizes.length p = some deltaSizes := by
  obtain ⟨emitted,hfull,rfl⟩ := h.split
  have hleft : (emitted++p.2.contents).length-emitted.length = p.2.size := by
    rw [List.length_append,h.pending.contents_length]
    omega
  simp only [StatusChunk.decodeAll,flatMap_symbols_of_full hfull hlimit,hleft,LastChunk.empty,
    beq_iff_eq]
  by_cases hs : p.2.size = 0
  · have hempty : p.2.contents = [] := by
      rw [← List.length_eq_zero_iff,h.pending.contents_length,hs]
    rw [if_pos hs,hempty,List.append_nil]
  · rw [if_neg hs,if_pos (h.pending.mayEncodeLast (by omega)),h.pending.encodeLast_symbols]

/-- An accepted `AddDeltaSize` pushes into the chunks of the feedback. -/
theorem push_of_addDeltaSize {fb fb' : TransportFeedback} {d : ℕ} (hd : d ≤ 2)
    (h : fb.lastChunk.WellFormed) (ha : fb.addDeltaSize d = some fb') :
    push (fb.encodedChunks,fb.lastChunk) d = some (fb'.encodedChunks,fb'.lastChunk) := by
  obtain ⟨_,chunks,last,bytes,rfl,hcase⟩ := TransportFeedback.addDeltaSize_cases ha
  simp only [push,if_neg (Nat.not_lt.mpr hd)]
  cases hcase with
  | inl hadd =>
      obtain ⟨hc,rfl,rfl,_⟩ := hadd
      rw [if_pos hc,if_pos ⟨hd,hc⟩]
  | inr hemit =>
      obtain ⟨hc,rfl,rfl,_⟩ := hemit
      have hsize := (h.emit_spec hc).2.1
      rw [hc,if_neg Bool.false_ne_true,if_pos (h.mayEmit hd hc),
        if_pos (LastChunk.mayAdd_of_size_lt hd hsize)]

/-- Delta sizes of all lengths go through the chunks, within their assertions. -/
theorem pushed_sizes_read_back {deltaSizes : List ℕ} (h : ∀ d ∈ deltaSizes, d ≤ 2) {limit : ℕ}
    (hlimit : kMaxRunLengthCapacity ≤ limit) : ∃ p, pushAll deltaSizes = some p ∧
      decodeAll limit deltaSizes.length p = some deltaSizes := by
  obtain ⟨p,hp,hholds⟩ := holds_pushAll h
  exact ⟨p,hp,hholds.decodeAll hlimit⟩

theorem pushed_sizes_read_back_mixed : ∃ p, pushAll [1,1,1,1,1,1,2,0,1,2] = some p ∧
    decodeAll kMaxRunLengthCapacity 10 p = some [1,1,1,1,1,1,2,0,1,2] :=
  pushed_sizes_read_back (by decide) le_rfl

end Ylrtc.StatusChunk
