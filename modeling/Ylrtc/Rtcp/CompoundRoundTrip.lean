import Ylrtc.Rtcp.Compound
import Ylrtc.Rtcp.SentBytes

/-!
# Compound packets there and back

The packets of `rtp_rtcp/rtcp_packet.cpp`, serialized one behind the other into one buffer,
and `RtcpCompound::Parse` of the bytes. Transport feedback, whose parser looks at the end of
the whole buffer, is left out.
-/
namespace Ylrtc.RtcpRoundTrip
open ByteBuffer ByteWriter CursorParser RtcpHeader RtcpPackets
open RtcpCompound (RtcpPacket ParsedPacket parse parseFrom parsePacket)

def layoutOf : SentPacket → Layout
  | .sr p => p.layout
  | .rr p => p.layout
  | .nack p => p.layout
  | .pli p => p.layout
  | .fir p => p.layout
  | .xr p => p.layout
  | .feedback fb _ => (FeedbackWire.wireBytes fb).map some

/-- A parsed packet says what the sent one says: everything of a report, but of a loss three
bytes, the numbers of a NACK as a set, and as a list if they are in order. Of payload-specific
feedback the parser keeps the header. -/
inductive Carries : SentPacket → RtcpPacket → Prop
  | sr {p q : SenderReportPacket} (same : q = { p with header := q.header }) :
      Carries (.sr p) (.senderReport q)
  | rr {p q : ReceiverReportPacket} (sender : q.senderSsrc = p.senderSsrc)
      (blocks : q.reportBlocks = p.reportBlocks.map ReportBlock.onWire) :
      Carries (.rr p) (.receiverReport q)
  | nack {p q : NackPacket} (sender : q.senderSsrc = p.senderSsrc)
      (media : q.mediaSsrc = p.mediaSsrc)
      (numbers : ∀ n, n ∈ q.packetLostSequenceNumbers ↔ n ∈ p.packetLostSequenceNumbers)
      (inOrder : p.packetLostSequenceNumbers.IsChain Ahead →
        span p.packetLostSequenceNumbers < 2^16 →
        q.packetLostSequenceNumbers = p.packetLostSequenceNumbers) :
      Carries (.nack p) (.nack q)
  | pli {p : RtcpPliPacket} {header : RtcpCommonHeader} (type : header.packetType = kRtcpTypePsfb)
      (format : header.countOrFormat = kPli) : Carries (.pli p) (.base header)
  | fir {p : RtcpFirPacket} {header : RtcpCommonHeader} (type : header.packetType = kRtcpTypePsfb)
      (format : header.countOrFormat = kFir) : Carries (.fir p) (.base header)
  | xr {p q : XrPacket} (same : q = { p with header := q.header }) : Carries (.xr p) (.xr q)

/-! ### One packet -/

section Dispatch
variable {h : RtcpCommonHeader}

end Dispatch

/-- The offsets of packets laid one behind the other. -/
def offsets : ℕ → List SentPacket → List ℕ
  | _,[] => []
  | k,p::ps => k::offsets (k+(layoutOf p).length) ps

end Ylrtc.RtcpRoundTrip
