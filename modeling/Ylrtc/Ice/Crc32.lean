import Ylrtc.Ice.StunMessage
import Ylrtc.Lib.ReflectedCrc

/-!
# The checksum of fingerprints

`Crc32::Calculate` takes a byte at a time from a table. It is the reflected check of
the message's bits, one bit at a time.
-/
namespace Ylrtc.Stun.Crc32
open CursorParser ReflectedCrc

/-- CRC-32 as it is defined: the bits of each byte from the lowest on, through a register
that starts with all ones and is complemented at the end. -/
def bitByBit (data : List Byte) : BitVec 32 :=
  ~~~(crc kCrc32Polynomial 0xFFFFFFFF (data.flatMap (lowBits 8)))

theorem tableRound_eq (c : BitVec 32) : tableRound c = shift kCrc32Polynomial c := by
  rw [shift,feed,Bool.xor_false]
  rfl

/-- An entry of the table is its index moved eight places. -/
theorem table_eq (i : BitVec 32) : table i = shifts kCrc32Polynomial 8 i := by
  have hrounds : ∀ n, (List.range n).foldl (fun c _ => tableRound c) i =
      shifts kCrc32Polynomial n i := by
    intro n
    induction n with
    | zero => rfl
    | succ n ih =>
        rw [List.range_succ,List.foldl_append,ih,List.foldl_cons,List.foldl_nil,tableRound_eq]
        rfl
  exact hrounds 8

theorem low_byte_bit : ∀ i < 8, (0xFF : BitVec 32).getLsbD i = true := by
  decide

/-- One byte from the table is its eight bits one at a time. -/
theorem table_step (c : BitVec 32) (d : Byte) :
    table ((c ^^^ d.setWidth 32) &&& 0xFF) ^^^ (c >>> 8) =
      crc kCrc32Polynomial c (lowBits 8 d) := by
  have hmove : (c ^^^ d.setWidth 32) >>> 8 = c >>> 8 := by
    rw [BitVec.ushiftRight_xor_distrib,ushiftRight_setWidth,BitVec.xor_zero]
  rw [crc_chunk _ (by decide),
    shifts_split _ 8 _ 0xFF low_byte_bit (by decide),hmove,table_eq]

theorem tableLoop_eq (data : List Byte) (c : BitVec 32) :
    data.foldl (fun c d => table ((c ^^^ d.setWidth 32) &&& 0xFF) ^^^ (c >>> 8)) c =
      crc kCrc32Polynomial c (data.flatMap (lowBits 8)) := by
  induction data generalizing c with
  | nil => rfl
  | cons d data ih =>
      rw [List.foldl_cons,ih,table_step,List.flatMap_cons]
      simp only [crc,List.foldl_append]

theorem calculate_bit_by_bit (data : List Byte) : calculate data = bitByBit data := by
  rw [calculate,tableLoop_eq,bitByBit]
  exact BitVec.xor_allOnes

/-- The check value of CRC-32: that of the digits from one to nine. -/
example : bitByBit [0x31,0x32,0x33,0x34,0x35,0x36,0x37,0x38,0x39] = 0xCBF43926 := by
  decide +kernel

end Ylrtc.Stun.Crc32
