import Ylrtc.Base.ByteBuffer

/-!
# The common RTCP header and the common feedback fields

`RtcpCommonHeader`, `ParseCommonHeader`, `SerializeCommonHeader`,
`ParseCommonFeedback` and `SerializeCommonFeedback` of `rtp_rtcp/rtcp_packet.cpp`.
The first byte packs version, padding and count, most significant bits first;
`ntohs` and `htons` make the length big-endian on the wire.
-/
namespace Ylrtc.RtcpHeader
open CursorParser ByteBuffer

def kRtcpTypeSr : BitVec 8 := 200
def kRtcpTypeRr : BitVec 8 := 201
def kRtcpTypeRtpfb : BitVec 8 := 205
def kRtcpTypeXr : BitVec 8 := 207
def kNack : BitVec 5 := 1
def kTwcc : BitVec 5 := 15
def kHeaderLength : ℕ := 4
def kCommonFeedbackLength : ℕ := 8

structure RtcpCommonHeader where
  version : BitVec 2
  padding : BitVec 1
  countOrFormat : BitVec 5
  packetType : BitVec 8
  length : BitVec 16
  deriving DecidableEq, Repr

/-- The four bytes of a header at a pointer. -/
def loadHeader (data : ℕ → Byte) : RtcpCommonHeader :=
  { version := (data 0).extractLsb' 6 2
    padding := (data 0).extractLsb' 5 1
    countOrFormat := (data 0).extractLsb' 0 5
    packetType := data 1
    length := loadUInt16BE fun i => data (2+i) }

/-- The header of the packet at an offset. -/
def headerAt (b : Region) (k : ℕ) : RtcpCommonHeader := loadHeader fun i => b.bytes (k+i)

def RtcpCommonHeader.bytes (h : RtcpCommonHeader) : List Byte :=
  [h.version ++ h.padding ++ h.countOrFormat,h.packetType] ++ storeUInt16BE h.length

/-- Declared size of a packet in bytes, its header included. -/
def RtcpCommonHeader.declaredSize (h : RtcpCommonHeader) : ℕ := 4*(h.length.toNat+1)

def parseCommonHeader : Parser RtcpCommonHeader := do
  let data ← Parser.take 4
  return loadHeader data

def serializeCommonHeader (h : RtcpCommonHeader) (w : ByteWriter) : Option ByteWriter :=
  w.writeBytes h.bytes

/-- Sender and media SSRC. -/
def parseCommonFeedback : Parser (BitVec 32 × BitVec 32) := do
  let senderSsrc ← readUInt32
  let mediaSsrc ← readUInt32
  return (senderSsrc,mediaSsrc)

@[simp] theorem RtcpCommonHeader.bytes_length (h : RtcpCommonHeader) : h.bytes.length = 4 := rfl

theorem loadHeader_of_holds {b : Region} {k : ℕ} {h : RtcpCommonHeader}
    (hb : b.Holds k h.bytes) : loadHeader (fun i => b.bytes (k+i)) = h := by
  obtain ⟨h01,hlen⟩ := Region.holds_append.mp hb
  have h0 := h01.2 0 (by simp)
  have h1 := h01.2 1 (by simp)
  have hl := loadUInt16BE_of_holds hlen
  simp only [List.length_cons,List.length_nil,Nat.zero_add,Nat.reduceAdd,Nat.add_assoc] at hl
  simp only [loadHeader,h0,h1,hl,List.getElem_cons_zero,List.getElem_cons_succ]
  cases h with
  | mk version padding count type length =>
      simp only [RtcpCommonHeader.mk.injEq,and_true]
      refine ⟨?_,?_,?_⟩
      · rw [BitVec.append_assoc]
        simp only [BitVec.extractLsb'_cast]
        exact BitVec.extractLsb'_append_eq_left
      · rw [BitVec.extractLsb'_append_eq_of_le (by omega)]
        exact BitVec.extractLsb'_append_eq_right
      · exact BitVec.extractLsb'_append_eq_right

theorem parseCommonHeader_of_holds {b : Region} {c : Cursor} {h : RtcpCommonHeader}
    (hb : b.Holds c.start h.bytes) :
    parseCommonHeader.run b c = (some h,⟨c.start+4,List.range' c.start 4 ++ c.touched⟩) := by
  unfold parseCommonHeader
  rw [Parser.bind_of_some (Parser.take_of_le (n := 4) hb.1)]
  simp only [Parser.run_pure,loadHeader_of_holds hb]

theorem parseCommonHeader_eq_some {b : Region} {c c' : Cursor} {h : RtcpCommonHeader}
    (hp : parseCommonHeader.run b c = (some h,c')) :
    c.start+4 ≤ b.size ∧ h = loadHeader (fun i => b.bytes (c.start+i)) ∧ c'.start = c.start+4 ∧
      c'.touched = List.range' c.start 4 ++ c.touched :=
  take_map_eq_some (by omega) hp

theorem parseCommonFeedback_of_holds {b : Region} {c : Cursor} {s m : BitVec 32}
    (hb : b.Holds c.start (storeUInt32BE s ++ storeUInt32BE m)) :
    ∃ t, parseCommonFeedback.run b c = (some (s,m),⟨c.start+8,t⟩) := by
  obtain ⟨hs,hm⟩ := Region.holds_append.mp hb
  refine ⟨List.range' (c.start+4) 4 ++ (List.range' c.start 4 ++ c.touched),?_⟩
  unfold parseCommonFeedback
  rw [Parser.bind_of_some (readUInt32_of_holds hs),Parser.bind_of_some (readUInt32_of_holds hm)]
  rfl

theorem parseCommonHeader_words : parseCommonHeader.Words 1 headerAt :=
  Parser.words_take

theorem parseCommonHeader_reads : parseCommonHeader.Reads 4 :=
  (Parser.reads_take (Nat.succ_pos 3)).map _

theorem parseCommonFeedback_reads : parseCommonFeedback.Reads 8 :=
  readUInt32_reads.bind fun s => readUInt32_reads.map fun m => (s,m)

/-- Every packet's parser starts with the header. -/
theorem header_bind {β : Type} {f : RtcpCommonHeader → Parser β} {b : Region} {c c' : Cursor} {y : β}
    (h : (parseCommonHeader >>= f).run b c = (some y,c')) :
    ∃ d, c.start+4 ≤ b.size ∧ Consumes b 4 c d ∧ (f (headerAt b c.start)).run b d = (some y,c') := by
  obtain ⟨header,d,hh,hf⟩ := Parser.bind_eq_some h
  obtain ⟨hsize,rfl,_,_⟩ := parseCommonHeader_eq_some hh
  exact ⟨d,hsize,parseCommonHeader_reads hh,hf⟩

end Ylrtc.RtcpHeader
