import Ylrtc.Base.WireLayout
import Ylrtc.Rtcp.Packets

/-!
# The serializers of the RTCP packets

`Serialize` and `Size` of the packet classes in `rtp_rtcp/rtcp_packet.cpp`. All but
`XrPacket` set every field of the header anew. `Size` is computed on its own and not from
what `Serialize` lays over the buffer.
-/
namespace Ylrtc.RtcpPackets
open ByteBuffer ByteWriter CursorParser RtcpHeader

abbrev kRtcpTypePsfb : BitVec 8 := 206
abbrev kPli : BitVec 5 := 1
abbrev kFir : BitVec 5 := 4
abbrev kSenderBaseLength : ℕ := 24
abbrev kRrBaseLength : ℕ := 4
abbrev kReportBlockLength : ℕ := 24
abbrev kMaxNumberOfReportBlocks : ℕ := 31
abbrev kFciLength : ℕ := 8

/-- A write whose answer is not looked at. -/
def tryWrite (write : ByteWriter → Option ByteWriter) (w : ByteWriter) : Option ByteWriter :=
  some ((write w).getD w)

/-! ### Sender and receiver reports -/

def SenderReportPacket.size (_ : SenderReportPacket) : ℕ := kHeaderLength + kSenderBaseLength

def SenderReportPacket.serialize (p : SenderReportPacket) (w : ByteWriter) : Option ByteWriter := do
  let header : RtcpCommonHeader :=
    { countOrFormat := 0, packetType := kRtcpTypeSr, padding := 0, version := 2
      length := BitVec.ofNat 16 ((kHeaderLength + kSenderBaseLength)/4 - 1) }
  let w ← serializeCommonHeader header w
  let w ← w.writeUInt32 p.senderSsrc
  let w ← w.writeUInt32 p.ntpSeconds
  let w ← w.writeUInt32 p.ntpFractions
  let w ← w.writeUInt32 p.rtpTimestamp
  let w ← w.writeUInt32 p.sendPacketCount
  w.writeUInt32 p.sendOctets

def ReportBlock.serialize (w : ByteWriter) (block : ReportBlock) : Option ByteWriter := do
  let w ← w.writeUInt32 block.sourceSsrc
  let w ← w.writeUInt8 block.fractionLost
  let w ← w.writeUInt24 block.cumulativeLost
  let w ← w.writeUInt32 block.extendedHighSeqNum
  let w ← w.writeUInt32 block.jitter
  let w ← w.writeUInt32 block.lastSr
  w.writeUInt32 block.delaySinceLastSr

def ReceiverReportPacket.size (p : ReceiverReportPacket) : ℕ :=
  kHeaderLength + kRrBaseLength + p.reportBlocks.length*kReportBlockLength

/-- The length counts the header and the blocks, and not the SSRC of the sender. -/
def ReceiverReportPacket.wireHeader (p : ReceiverReportPacket) : RtcpCommonHeader :=
  { countOrFormat := BitVec.ofNat 5 p.reportBlocks.length
    packetType := kRtcpTypeRr, padding := 0, version := 2
    length := BitVec.ofNat 16
      ((kHeaderLength + p.reportBlocks.length*kReportBlockLength)/4 - 1) }

def ReceiverReportPacket.serialize (p : ReceiverReportPacket) (w : ByteWriter) :
    Option ByteWriter := do
  let w ← serializeCommonHeader p.wireHeader w
  let w ← w.writeUInt32 p.senderSsrc
  p.reportBlocks.foldlM ReportBlock.serialize w

/-! ### Payload-specific feedback -/

structure RtcpPliPacket where
  senderSsrc : BitVec 32
  mediaSsrc : BitVec 32
  deriving DecidableEq, Repr

structure FciEntry where
  ssrc : BitVec 32
  seqNr : Byte
  deriving DecidableEq, Repr

structure RtcpFirPacket where
  senderSsrc : BitVec 32
  mediaSsrc : BitVec 32
  fci : List FciEntry := []
  deriving DecidableEq, Repr

def serializeCommonFeedback (senderSsrc mediaSsrc : BitVec 32) (w : ByteWriter) :
    Option ByteWriter := do
  let w ← w.writeUInt32 senderSsrc
  w.writeUInt32 mediaSsrc

def RtcpPliPacket.size (_ : RtcpPliPacket) : ℕ := kHeaderLength + kCommonFeedbackLength

def RtcpPliPacket.serialize (p : RtcpPliPacket) (w : ByteWriter) : Option ByteWriter := do
  let header : RtcpCommonHeader :=
    { countOrFormat := kPli, packetType := kRtcpTypePsfb, padding := 0, version := 2
      length := BitVec.ofNat 16 ((kHeaderLength + kCommonFeedbackLength)/4 - 1) }
  let w ← serializeCommonHeader header w
  serializeCommonFeedback p.senderSsrc p.mediaSsrc w

def RtcpFirPacket.size (p : RtcpFirPacket) : ℕ :=
  kHeaderLength + kCommonFeedbackLength + kFciLength*p.fci.length

def FciEntry.write (w : ByteWriter) (request : FciEntry) : Option ByteWriter := do
  let w ← tryWrite (fun w => w.writeUInt32 request.ssrc) w
  let w ← tryWrite (fun w => w.writeUInt8 request.seqNr) w
  tryWrite (fun w => w.writeUInt24 0) w

def RtcpFirPacket.serialize (p : RtcpFirPacket) (w : ByteWriter) : Option ByteWriter := do
  let header : RtcpCommonHeader :=
    { countOrFormat := kFir, packetType := kRtcpTypePsfb, padding := 0, version := 2
      length := BitVec.ofNat 16
        ((kHeaderLength + kCommonFeedbackLength + 8*p.fci.length)/4 - 1) }
  let w ← serializeCommonHeader header w
  let w ← serializeCommonFeedback p.senderSsrc p.mediaSsrc w
  p.fci.foldlM FciEntry.write w

/-! ### Generic NACK -/

structure PackedNack where
  firstPid : BitVec 16
  bitmask : BitVec 16
  deriving DecidableEq, Repr

/-- The two loops of `NackPacket::Serialize` from inside an item on: a number of the 16
behind the pid goes into its mask, another one starts the next item. -/
def packFrom (item : PackedNack) : List (BitVec 16) → List PackedNack
  | [] => [item]
  | n::rest =>
      let shift := n - item.firstPid - 1
      if shift.toNat ≤ 15 then
        packFrom { item with bitmask := item.bitmask ||| 1#16 <<< shift.toNat } rest
      else item::packFrom ⟨n,0⟩ rest

def pack : List (BitVec 16) → List PackedNack
  | [] => []
  | n::rest => packFrom ⟨n,0⟩ rest

def PackedNack.write (w : ByteWriter) (item : PackedNack) : Option ByteWriter := do
  let w ← tryWrite (fun w => w.writeUInt16 item.firstPid) w
  tryWrite (fun w => w.writeUInt16 item.bitmask) w

/-- Room for one item for each number. -/
def NackPacket.size (p : NackPacket) : ℕ :=
  kHeaderLength + kCommonFeedbackLength + p.packetLostSequenceNumbers.length*kNackItemLength

def NackPacket.wireHeader (p : NackPacket) : RtcpCommonHeader :=
  { countOrFormat := kNack, packetType := kRtcpTypeRtpfb, padding := 0, version := 2
    length := BitVec.ofNat 16 ((kHeaderLength + kCommonFeedbackLength +
      kNackItemLength*(pack p.packetLostSequenceNumbers).length)/4 - 1) }

def NackPacket.serialize (p : NackPacket) (w : ByteWriter) : Option ByteWriter := do
  let w ← serializeCommonHeader p.wireHeader w
  let w ← serializeCommonFeedback p.senderSsrc p.mediaSsrc w
  (pack p.packetLostSequenceNumbers).foldlM PackedNack.write w

/-! ### Extended reports -/

abbrev kRrtrBlockLength : ℕ := 8
abbrev kDlrrSubBlockLength : ℕ := 12
abbrev kReportBlockHeaderLength : ℕ := 4

def RrtrBlockContext.size (_ : RrtrBlockContext) : ℕ := kRrtrBlockLength
def RrtrBlockContext.sizeIn32bits (_ : RrtrBlockContext) : BitVec 16 :=
  BitVec.ofNat 16 (kRrtrBlockLength/4)

def RrtrBlockContext.serialize (rrtr : RrtrBlockContext) (w : ByteWriter) : Option ByteWriter :=
  match rrtr.ntp with
  | none => none
  | some ntp => do
      let w ← w.writeUInt32 ntp.seconds
      w.writeUInt32 ntp.fractions

def DlrrBlockContext.size (dlrr : DlrrBlockContext) : ℕ :=
  kDlrrSubBlockLength*dlrr.subBlocks.length
def DlrrBlockContext.sizeIn32bits (dlrr : DlrrBlockContext) : BitVec 16 :=
  BitVec.ofNat 16 (kDlrrSubBlockLength*dlrr.subBlocks.length/4)

def ReceiveTimeInfo.serialize (w : ByteWriter) (info : ReceiveTimeInfo) : Option ByteWriter := do
  let w ← w.writeUInt32 info.ssrc
  let w ← w.writeUInt32 info.lastRr
  w.writeUInt32 info.delaySinceLastRr

def DlrrBlockContext.serialize (dlrr : DlrrBlockContext) (w : ByteWriter) : Option ByteWriter :=
  dlrr.subBlocks.foldlM ReceiveTimeInfo.serialize w

/-- `htons` on a little-endian machine. -/
def htons (v : BitVec 16) : BitVec 16 := v.extractLsb' 0 8 ++ v.extractLsb' 8 8

namespace XrPacket

def size (p : XrPacket) : ℕ :=
  let dlrrLength := match p.dlrrBlockContext with
    | none => 0
    | some dlrr => dlrr.size + kReportBlockHeaderLength
  let rrtrLength := match p.rrtrBlockContext with
    | none => 0
    | some rrtr => rrtr.size + kReportBlockHeaderLength
  kHeaderLength + 4 + dlrrLength + rrtrLength

/-- The length is added to the one that was there, and the count stays. -/
def wireHeader (p : XrPacket) : RtcpCommonHeader :=
  let length := match p.rrtrBlockContext with
    | none => p.header.length
    | some rrtr => p.header.length + (rrtr.sizeIn32bits + BitVec.ofNat 16 kBlockHeaderIn32Bits + 1)
  let length := match p.dlrrBlockContext with
    | none => length
    | some dlrr => length + (dlrr.sizeIn32bits + BitVec.ofNat 16 kBlockHeaderIn32Bits + 1)
  { p.header with length := length, packetType := kRtcpTypeXr, version := 2, padding := 0 }

/-- The header of a report block, without its reserved byte. -/
def writeBlockHeader (blockType : Byte) (sizeIn32bits : BitVec 16) (w : ByteWriter) :
    Option ByteWriter := do
  let w ← w.writeUInt8 blockType
  let w ← w.consume 1
  w.writeUInt16 sizeIn32bits

def serializeRrtr (p : XrPacket) (w : ByteWriter) : Option ByteWriter :=
  match p.rrtrBlockContext with
  | none => some w
  | some rrtr => do
      let w ← writeBlockHeader kBlockTypeRrtr rrtr.sizeIn32bits w
      rrtr.serialize w

def serializeDlrr (p : XrPacket) (w : ByteWriter) : Option ByteWriter :=
  match p.dlrrBlockContext with
  | none => some w
  | some dlrr => do
      let w ← writeBlockHeader kBlockTypeDlrr dlrr.sizeIn32bits w
      dlrr.serialize w

def serialize (p : XrPacket) (w : ByteWriter) : Option ByteWriter := do
  let w ← serializeCommonHeader p.wireHeader w
  let w ← w.writeUInt32 p.senderSsrc
  let w ← p.serializeRrtr w
  p.serializeDlrr w

/-- The packet behind a call of `Serialize`, with the length swapped in place. -/
def serialized (p : XrPacket) : XrPacket :=
  { p with header := { p.wireHeader with length := htons p.wireHeader.length } }

end XrPacket

/-! ### What the serializers lay over the buffer -/

theorem lays_tryWrite {write : ByteWriter → Option ByteWriter} {l : Layout} (h : Lays write l) :
    Lays (tryWrite write) l := by
  intro w hw hroom
  rw [tryWrite,h w hw hroom,Option.getD_some]

theorem lays_writeUInt8 (v : Byte) : Lays (fun w => w.writeUInt8 v) [some v] := lays_writeBytes [v]
theorem lays_writeUInt16 (v : BitVec 16) :
    Lays (fun w => w.writeUInt16 v) ((storeUInt16BE v).map some) := lays_writeBytes _
theorem lays_writeUInt24 (v : BitVec 32) :
    Lays (fun w => w.writeUInt24 v) ((storeUInt24BE v).map some) := lays_writeBytes _
theorem lays_writeUInt32 (v : BitVec 32) :
    Lays (fun w => w.writeUInt32 v) ((storeUInt32BE v).map some) := lays_writeBytes _
theorem lays_header (h : RtcpCommonHeader) :
    Lays (serializeCommonHeader h) (h.bytes.map some) := lays_writeBytes _

def feedbackLayout (senderSsrc mediaSsrc : BitVec 32) : Layout :=
  (storeUInt32BE senderSsrc).map some ++ (storeUInt32BE mediaSsrc).map some

theorem lays_feedback (senderSsrc mediaSsrc : BitVec 32) :
    Lays (serializeCommonFeedback senderSsrc mediaSsrc) (feedbackLayout senderSsrc mediaSsrc) :=
  (lays_writeUInt32 _).bind (lays_writeUInt32 _)

def ReportBlock.layout (block : ReportBlock) : Layout :=
  (storeUInt32BE block.sourceSsrc).map some ++ ([some block.fractionLost] ++
    ((storeUInt24BE block.cumulativeLost).map some ++
    ((storeUInt32BE block.extendedHighSeqNum).map some ++ ((storeUInt32BE block.jitter).map some ++
    ((storeUInt32BE block.lastSr).map some ++ (storeUInt32BE block.delaySinceLastSr).map some)))))

theorem ReportBlock.lays (block : ReportBlock) :
    Lays (fun w => ReportBlock.serialize w block) block.layout :=
  (lays_writeUInt32 _).bind <| (lays_writeUInt8 _).bind <| (lays_writeUInt24 _).bind <|
    (lays_writeUInt32 _).bind <| (lays_writeUInt32 _).bind <| (lays_writeUInt32 _).bind
    (lays_writeUInt32 _)

def ReceiverReportPacket.layout (p : ReceiverReportPacket) : Layout :=
  p.wireHeader.bytes.map some ++ ((storeUInt32BE p.senderSsrc).map some ++
    p.reportBlocks.flatMap ReportBlock.layout)

theorem ReceiverReportPacket.lays (p : ReceiverReportPacket) : Lays p.serialize p.layout :=
  (lays_header _).bind <| (lays_writeUInt32 _).bind <| Lays.forEach ReportBlock.lays _

def PackedNack.layout (item : PackedNack) : Layout :=
  (storeUInt16BE item.firstPid).map some ++ (storeUInt16BE item.bitmask).map some

theorem PackedNack.lays (item : PackedNack) :
    Lays (fun w => PackedNack.write w item) item.layout :=
  (lays_tryWrite (lays_writeUInt16 _)).bind (lays_tryWrite (lays_writeUInt16 _))

def NackPacket.layout (p : NackPacket) : Layout :=
  p.wireHeader.bytes.map some ++ (feedbackLayout p.senderSsrc p.mediaSsrc ++
    (pack p.packetLostSequenceNumbers).flatMap PackedNack.layout)

theorem NackPacket.lays (p : NackPacket) : Lays p.serialize p.layout :=
  (lays_header _).bind <| (lays_feedback _ _).bind <| Lays.forEach PackedNack.lays _

/-- Items of one size. -/
theorem length_flatMap {α : Type} {f : α → Layout} {n : ℕ} (h : ∀ a, (f a).length = n)
    (as : List α) : (as.flatMap f).length = as.length*n := by
  induction as with
  | nil => rw [List.flatMap_nil,List.length_nil,List.length_nil,Nat.zero_mul]
  | cons a as ih =>
      rw [List.flatMap_cons,List.length_append,h,ih,List.length_cons,Nat.succ_mul,Nat.add_comm]

theorem ReceiverReportPacket.layout_length (p : ReceiverReportPacket) :
    p.layout.length = p.size := by
  have hblocks := length_flatMap (f := ReportBlock.layout) (n := 24) (fun _ => rfl) p.reportBlocks
  simp only [layout,size,List.length_append,List.length_map,RtcpCommonHeader.bytes_length,
    storeUInt32BE_length,hblocks,kHeaderLength,kRrBaseLength,kReportBlockLength]
  omega

theorem NackPacket.layout_length (p : NackPacket) :
    p.layout.length = 12+(pack p.packetLostSequenceNumbers).length*4 := by
  have hitems := length_flatMap (f := PackedNack.layout) (n := 4) (fun _ => rfl)
    (pack p.packetLostSequenceNumbers)
  simp only [layout,feedbackLayout,List.length_append,List.length_map,
    RtcpCommonHeader.bytes_length,storeUInt32BE_length,hitems]
  omega

/-- Packing never makes items out of nothing. -/
theorem length_packFrom_le (item : PackedNack) (ns : List (BitVec 16)) :
    (packFrom item ns).length ≤ ns.length+1 := by
  induction ns generalizing item with
  | nil => exact le_rfl
  | cons n ns ih =>
      rw [packFrom]
      split
      · exact (ih _).trans (Nat.le_succ _)
      · exact Nat.succ_le_succ (ih _)

theorem length_pack_le (ns : List (BitVec 16)) : (pack ns).length ≤ ns.length := by
  cases ns with
  | nil => exact le_rfl
  | cons n ns => exact length_packFrom_le _ ns

theorem NackPacket.layout_length_le (p : NackPacket) : p.layout.length ≤ p.size := by
  have hitems := length_pack_le p.packetLostSequenceNumbers
  rw [layout_length,size,kHeaderLength,kCommonFeedbackLength,kNackItemLength]
  omega

end Ylrtc.RtcpPackets
