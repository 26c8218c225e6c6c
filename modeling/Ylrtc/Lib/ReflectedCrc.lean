import Mathlib.Data.List.Basic

/-!
# Reflected cyclic redundancy checks

A check of any width, one message bit at a time with the least significant bit first,
and the register steps that take the bits of a chunk together.
-/
namespace Ylrtc.ReflectedCrc
variable {w : ℕ} (poly : BitVec w)

/-- The register takes one message bit. -/
def feed (c : BitVec w) (b : Bool) : BitVec w :=
  if c.getLsbD 0 ^^ b then poly ^^^ (c >>> 1) else c >>> 1

/-- The check of a message of bits. -/
def crc (start : BitVec w) (message : List Bool) : BitVec w := message.foldl (feed poly) start

/-- The first `n` bits of a chunk, the least significant first. -/
def lowBits {v : ℕ} (n : ℕ) (d : BitVec v) : List Bool := (List.range n).map d.getLsbD

/-- The register moves one place with no message bit. -/
def shift (c : BitVec w) : BitVec w := feed poly c false

def shifts : ℕ → BitVec w → BitVec w
  | 0, c => c
  | n+1, c => shift poly (shifts n c)

theorem lowBits_succ {v : ℕ} (n : ℕ) (d : BitVec v) :
    lowBits (n+1) d = lowBits n d++[d.getLsbD n] := by
  simp only [lowBits,List.range_succ,List.map_append,List.map_cons,List.map_nil]

theorem crc_snoc (c : BitVec w) (message : List Bool) (b : Bool) :
    crc poly c (message++[b]) = feed poly (crc poly c message) b := by
  simp only [crc,List.foldl_append,List.foldl_cons,List.foldl_nil]

/-- A chunk that is added to the register gives its lowest bit at the next place. -/
theorem shift_xor (c e : BitVec w) :
    shift poly (c ^^^ e) = feed poly c (e.getLsbD 0) ^^^ (e >>> 1) := by
  simp only [shift,feed,BitVec.getLsbD_xor,Bool.xor_false,BitVec.ushiftRight_xor_distrib]
  split
  · rw [BitVec.xor_assoc]
  · rfl

/-- The bits of a chunk one by one, and the chunk added before the same number of places. -/
theorem shifts_xor (n : ℕ) (c e : BitVec w) :
    shifts poly n (c ^^^ e) = crc poly c (lowBits n e) ^^^ (e >>> n) := by
  induction n with
  | zero => rfl
  | succ n ih =>
      have hbit : (e >>> n).getLsbD 0 = e.getLsbD n := by
        rw [BitVec.getLsbD_ushiftRight,Nat.add_zero]
      rw [shifts,ih,shift_xor,hbit,lowBits_succ,crc_snoc,BitVec.shiftRight_add]

theorem ushiftRight_setWidth {v : ℕ} (d : BitVec v) : d.setWidth w >>> v = 0#w := by
  apply BitVec.eq_of_getLsbD_eq
  intro i hi
  rw [BitVec.getLsbD_ushiftRight,BitVec.getLsbD_setWidth,
    BitVec.getLsbD_of_ge d (v+i) (Nat.le_add_right v i),Bool.and_false]
  exact BitVec.getLsbD_zero.symm

theorem lowBits_setWidth {v : ℕ} (hv : v ≤ w) (d : BitVec v) :
    lowBits v (d.setWidth w) = lowBits v d := by
  apply List.map_congr_left
  intro i hi
  have hlt : i < w := Nat.lt_of_lt_of_le (List.mem_range.mp hi) hv
  rw [BitVec.getLsbD_setWidth,decide_eq_true hlt,Bool.true_and]

/-- A whole chunk is taken by adding it to the register first. -/
theorem crc_chunk {v : ℕ} (hv : v ≤ w) (c : BitVec w) (d : BitVec v) :
    crc poly c (lowBits v d) = shifts poly v (c ^^^ d.setWidth w) := by
  rw [shifts_xor,ushiftRight_setWidth,lowBits_setWidth hv,BitVec.xor_zero]

/-- With no message bits a register only moves. -/
theorem crc_zeros (n : ℕ) (c e : BitVec w) (he : ∀ i < n, e.getLsbD i = false) :
    crc poly c (lowBits n e) = shifts poly n c := by
  induction n with
  | zero => rfl
  | succ n ih =>
      rw [lowBits_succ,crc_snoc,ih fun i hi => he i (Nat.lt_succ_of_lt hi),
        he n n.lt_succ_self]
      rfl

/-- The step of a table: the places of the low part are looked up, the rest moves down. -/
theorem shifts_split (n : ℕ) (x mask : BitVec w) (hmask : ∀ i < n, mask.getLsbD i = true)
    (hrest : mask >>> n = 0#w) : shifts poly n x = shifts poly n (x &&& mask) ^^^ (x >>> n) := by
  have hparts : x = (x &&& mask) ^^^ (x &&& ~~~mask) := by
    ext i
    simp only [BitVec.getElem_xor,BitVec.getElem_and,BitVec.getElem_not]
    cases x[i] <;> cases mask[i] <;> rfl
  have hlow : ∀ i < n, (x &&& ~~~mask).getLsbD i = false := by
    intro i hi
    rw [BitVec.getLsbD_and,BitVec.getLsbD_not,hmask i hi]
    simp
  have hhigh : (x &&& mask) >>> n = 0#w := by
    rw [BitVec.ushiftRight_and_distrib,hrest,BitVec.and_zero]
  have hmove : (x &&& ~~~mask) >>> n = x >>> n := by
    conv => rhs; rw [hparts]
    rw [BitVec.ushiftRight_xor_distrib,hhigh,BitVec.zero_xor]
  conv => lhs; rw [hparts]
  rw [shifts_xor,crc_zeros poly n _ _ hlow,hmove]

end Ylrtc.ReflectedCrc
