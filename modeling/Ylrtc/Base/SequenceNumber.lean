import Mathlib.Data.Int.Basic
import Mathlib.Tactic.Ring

/-!
# Sequence-number comparison and unwrapping

`SeqNumGE`, `SeqNumGT` and `SeqNumUnwrapper` of `base/sequence_number_util.h`,
at every unsigned width. The server instantiates the templates at `uint16_t`
only, so the arithmetic facts are stated at width 16: a comparison is the sign
of one signed offset, and the unwrapper adds that offset to its last value.

The unwrapped `int64_t` is an unbounded integer here. One call moves it by at
most half the range, so an overflow needs more than 2^47 packets.
-/
namespace Ylrtc.SequenceNumber

/-- At distance exactly `maxDist` the numerically larger number is ahead. For
`uint16_t` the source compares the promoted `int` difference, which equals
`maxDist` only when `a > b`; the other branch then answers false as well. -/
def seqNumGE {w : ℕ} (a b : BitVec w) : Bool :=
  let maxDist := BitVec.ofNat w (2^(w-1))
  if a - b = maxDist then decide (b < a) else decide (a - b < maxDist)

def seqNumGT {w : ℕ} (a b : BitVec w) : Bool := a != b && seqNumGE a b

structure SeqNumUnwrapper (w : ℕ) where
  lastUnwrapped : ℤ := 0
  lastValue : Option (BitVec w) := none
  deriving DecidableEq, Repr

/-- `Unwrap`: the unwrapped number and the unwrapper after the call. -/
def SeqNumUnwrapper.unwrap {w : ℕ} (u : SeqNumUnwrapper w) (value : BitVec w) :
    ℤ × SeqNumUnwrapper w :=
  let lastUnwrapped : ℤ :=
    match u.lastValue with
    | none => value.toNat
    | some last =>
        let forward := u.lastUnwrapped + (value - last).toNat
        if seqNumGE value last then forward else forward - 2^w
  (lastUnwrapped,⟨lastUnwrapped,some value⟩)

/-- `static_cast<uint16_t>(s & 0xFFFF)`. -/
def low16 (s : ℤ) : BitVec 16 := BitVec.ofInt 16 s

theorem low16_toNat (s : ℤ) : ((low16 s).toNat : ℤ) = s % 65536 := by
  simp only [low16,BitVec.toNat_ofInt]
  omega

theorem low16_eq_iff (s t : ℤ) : low16 s = low16 t ↔ s % 65536 = t % 65536 := by
  rw [← BitVec.toNat_inj]
  have hs := low16_toNat s
  have ht := low16_toNat t
  omega

theorem low16_ofNat (b : BitVec 16) : low16 b.toNat = b := by
  rw [← BitVec.toNat_inj]
  have h := low16_toNat b.toNat
  have hb := b.isLt
  omega

/-- The signed offset from `last` to `value` that the comparison decides. -/
def serialOffset (value last : BitVec 16) : ℤ :=
  if seqNumGE value last then (value - last).toNat else (value - last).toNat - 65536

theorem seqNumGE_iff (a b : BitVec 16) :
    seqNumGE a b = true ↔ (a - b).toNat < 32768 ∨ ((a - b).toNat = 32768 ∧ b.toNat < a.toNat) := by
  simp only [seqNumGE]
  split
  · rename_i h
    have hd : (a - b).toNat = 32768 := by rw [h]; rfl
    simp only [decide_eq_true_eq,BitVec.lt_def]
    omega
  · rename_i h
    have hd : (a - b).toNat ≠ 32768 := fun e => h (BitVec.eq_of_toNat_eq (by rw [e]; rfl))
    simp only [decide_eq_true_eq,BitVec.lt_def,BitVec.toNat_ofNat]
    omega

theorem sub_toNat (a b : BitVec 16) :
    ((a - b).toNat : ℤ) = ((a.toNat : ℤ) - b.toNat) % 65536 := by
  have ha := a.isLt
  have hb := b.isLt
  rw [BitVec.toNat_sub]
  omega

/-- Everything the offset promises: its residue, its range and the tie rule. -/
theorem serialOffset_spec (value last : BitVec 16) :
    (last.toNat + serialOffset value last) % 65536 = value.toNat ∧
      -32768 ≤ serialOffset value last ∧ serialOffset value last ≤ 32768 ∧
      (serialOffset value last = 32768 → last.toNat < 32768) ∧
      (serialOffset value last = -32768 → 32768 ≤ last.toNat) := by
  have hv := value.isLt
  have hl := last.isLt
  have hs := sub_toNat value last
  have hge := seqNumGE_iff value last
  unfold serialOffset
  split <;> rename_i h
  · have := hge.mp h
    omega
  · have : ¬((value - last).toNat < 32768 ∨
        ((value - last).toNat = 32768 ∧ last.toNat < value.toNat)) := fun k => h (hge.mpr k)
    omega

theorem seqNumGT_iff (a b : BitVec 16) : seqNumGT a b = true ↔ 0 < serialOffset a b := by
  have hs := sub_toNat a b
  have ha := a.isLt
  have hb := b.isLt
  have hge := seqNumGE_iff a b
  have hne : a ≠ b ↔ a.toNat ≠ b.toNat := by rw [Ne,Ne,BitVec.toNat_inj]
  simp only [seqNumGT,Bool.and_eq_true,bne_iff_ne,serialOffset,hne]
  split <;> rename_i h
  · simp only [h,and_true]
    omega
  · simp only [h]
    have := (a - b).isLt
    simp only [Bool.false_eq_true,and_false,false_iff]
    omega

/-- Two integers less than half the range apart differ by the offset of their
low sixteen bits. -/
theorem serialOffset_low16 (x y : ℤ) (h : -32768 < x - y) (h' : x - y < 32768) :
    serialOffset (low16 x) (low16 y) = x - y := by
  obtain ⟨hm,hlo,hhi,_,_⟩ := serialOffset_spec (low16 x) (low16 y)
  have hx := low16_toNat x
  have hy := low16_toNat y
  omega

theorem seqNumGT_low16 (x y : ℤ) (h : 0 < x - y) (h' : x - y < 32768) :
    seqNumGT (low16 x) (low16 y) = true := by
  rw [seqNumGT_iff,serialOffset_low16 x y (by omega) h']
  exact h

/-- The half-range gap is decided by numeric order. -/
theorem seqNumGT_low16_half (y : ℤ) :
    seqNumGT (low16 (y+32768)) (low16 y) = true ↔ y % 65536 < 32768 := by
  obtain ⟨hm,hlo,hhi,hp,hn⟩ := serialOffset_spec (low16 (y+32768)) (low16 y)
  have hx := low16_toNat (y+32768)
  have hy := low16_toNat y
  rw [seqNumGT_iff]
  omega

/-- The state an unwrapper can be in: nothing seen, or a value that is the low
half of the unwrapped number. -/
def SeqNumUnwrapper.Consistent (u : SeqNumUnwrapper 16) : Prop :=
  ∀ v, u.lastValue = some v → v = low16 u.lastUnwrapped

theorem SeqNumUnwrapper.unwrap_none (u : SeqNumUnwrapper 16) (value : BitVec 16)
    (h : u.lastValue = none) : (u.unwrap value).1 = value.toNat := by
  simp only [unwrap,h]

theorem SeqNumUnwrapper.unwrap_some (u : SeqNumUnwrapper 16) (value last : BitVec 16)
    (h : u.lastValue = some last) :
    (u.unwrap value).1 = u.lastUnwrapped + serialOffset value last := by
  simp only [unwrap,h,serialOffset]
  split <;> ring

@[simp] theorem SeqNumUnwrapper.unwrap_lastUnwrapped (u : SeqNumUnwrapper 16) (value : BitVec 16) :
    (u.unwrap value).2.lastUnwrapped = (u.unwrap value).1 := rfl

@[simp] theorem SeqNumUnwrapper.unwrap_lastValue (u : SeqNumUnwrapper 16) (value : BitVec 16) :
    (u.unwrap value).2.lastValue = some value := rfl

theorem SeqNumUnwrapper.low16_unwrap (u : SeqNumUnwrapper 16) (value : BitVec 16)
    (hu : u.Consistent) : low16 (u.unwrap value).1 = value := by
  cases h : u.lastValue with
  | none => rw [u.unwrap_none value h,low16_ofNat]
  | some last =>
      obtain ⟨hm,_⟩ := serialOffset_spec value last
      have hl := hu last h
      have hn := low16_toNat u.lastUnwrapped
      rw [u.unwrap_some value last h,← BitVec.toNat_inj]
      have hr := low16_toNat (u.lastUnwrapped + serialOffset value last)
      rw [← hl] at hn
      omega

theorem SeqNumUnwrapper.unwrap_consistent (u : SeqNumUnwrapper 16) (value : BitVec 16)
    (hu : u.Consistent) : (u.unwrap value).2.Consistent := by
  intro v hv
  simp only [unwrap_lastValue,Option.some.injEq] at hv
  rw [unwrap_lastUnwrapped,u.low16_unwrap value hu,hv]

/-- A number less than half the range from the last one is unwrapped to itself. -/
theorem SeqNumUnwrapper.unwrap_near (u : SeqNumUnwrapper 16) (n : ℤ) (hu : u.Consistent)
    (hs : u.lastValue ≠ none) (h : -32768 < n - u.lastUnwrapped) (h' : n - u.lastUnwrapped < 32768) :
    (u.unwrap (low16 n)).1 = n := by
  obtain ⟨last,hl⟩ := Option.ne_none_iff_exists'.mp hs
  rw [u.unwrap_some _ last hl,hu last hl,serialOffset_low16 _ _ h h']
  ring

/-- The unwrapper with the member that only `UnwrapWithoutUpdate` and `UpdateLast` use. -/
structure TentativeUnwrapper (w : ℕ) extends SeqNumUnwrapper w where
  lastWithoutUpdateValue : Option (BitVec w) := none

/-- `UnwrapWithoutUpdate`, which unlike `Unwrap` starts from zero and not from the last
unwrapped number. -/
def TentativeUnwrapper.unwrapWithoutUpdate {w : ℕ} (u : TentativeUnwrapper w) (value : BitVec w) :
    ℤ × TentativeUnwrapper w :=
  let unwrapped : ℤ :=
    match u.lastValue with
    | none => value.toNat
    | some last =>
        let forward : ℤ := (value - last).toNat
        if seqNumGE value last then forward else forward - 2^w
  (unwrapped,{ u with lastWithoutUpdateValue := some value })

def TentativeUnwrapper.updateLast {w : ℕ} (u : TentativeUnwrapper w) (lastValue : ℤ) :
    TentativeUnwrapper w :=
  { u with
    lastValue := if u.lastWithoutUpdateValue.isSome then u.lastWithoutUpdateValue else u.lastValue
    lastUnwrapped := lastValue }

theorem TentativeUnwrapper.unwrapWithoutUpdate_some (u : TentativeUnwrapper 16)
    (value : BitVec 16) {last : BitVec 16} (h : u.lastValue = some last) :
    (u.unwrapWithoutUpdate value).1 = serialOffset value last := by
  simp only [unwrapWithoutUpdate,h,serialOffset]
  split <;> rfl

end Ylrtc.SequenceNumber
