import Ylrtc.Base.SequenceNumber
import Ylrtc.Lib.MachineInt
import Ylrtc.Rtcp.Packets
import Ylrtc.Rtp.Packet

/-!
# Reception statistics

`TrackStatistics` of `transport/track_statistics.cpp`, without the bitrate estimator.
The answer of `IsRetransmitOfOldPacket`, which takes a square root of a `float`, is an
argument of the call.
-/
namespace Ylrtc.Statistics
open MachineInt Packet RtcpPackets SequenceNumber

abbrev kDefaultMaxReorderingThreshold : ℤ := 5
abbrev kStatisticsTimeoutMs : ℤ := 8000

/-- `int32_t` members hold values of that type, `int64_t` ones are unbounded. -/
structure TrackStatistics where
  ssrc : BitVec 32
  clockRate : BitVec 32
  enableRetransmitDetection : Bool := false
  jitterQ4 : BitVec 32 := 0
  cumulativeLoss : ℤ := 0
  cumulativeLossRtcpOffset : ℤ := 0
  lastReceiveTimeMs : ℤ := 0
  lastReceivedTimestamp : BitVec 32 := 0
  seqUnwrapper : TentativeUnwrapper 16 := {}
  receivedSeqFirst : ℤ := -1
  receivedSeqMax : ℤ := -1
  receivedSeqOutOfOrder : Option (BitVec 16) := none
  lastReportCumulativeLoss : ℤ := 0
  lastReportSeqMax : ℤ := -1
  transmittedPackets : BitVec 32 := 0
  retransmittedPackets : BitVec 32 := 0

namespace TrackStatistics

/-- `UpdateJitter`: the jitter after the call. -/
def updateJitter (t : TrackStatistics) (packet : RtpPacket) (receiveTimeMs : ℤ) : BitVec 32 :=
  let receiveDiffMs := receiveTimeMs - t.lastReceiveTimeMs
  let receiveDiffRtp := BitVec.ofInt 32 ((receiveDiffMs*t.clockRate.toNat).tdiv 1000)
  let timeDiffSamples := receiveDiffRtp - (packet.timestamp - t.lastReceivedTimestamp)
  let timeDiffSamples := if timeDiffSamples.msb then -timeDiffSamples else timeDiffSamples
  if timeDiffSamples.toInt < 450000 then
    let jitterDiffQ4 := (timeDiffSamples <<< 4) - t.jitterQ4
    t.jitterQ4 + (jitterDiffQ4 + 8).sshiftRight 4
  else t.jitterQ4

/-- The last part of `UpdateOutOfOrder`, behind the test for a stream restart. -/
def updateReordered (t : TrackStatistics) (packet : RtpPacket) (sequenceNumber : ℤ)
    (isRetransmit : Bool) : Bool × TrackStatistics :=
  if kDefaultMaxReorderingThreshold < |sequenceNumber - t.receivedSeqMax| then
    (true,{ t with
      receivedSeqOutOfOrder := some packet.sequenceNumber
      cumulativeLoss := int32 (t.cumulativeLoss+1) })
  else if t.receivedSeqMax < sequenceNumber then (false,t)
  else if t.enableRetransmitDetection && isRetransmit then
    (true,{ t with retransmittedPackets := t.retransmittedPackets+1 })
  else (true,t)

def updateOutOfOrder (t : TrackStatistics) (packet : RtpPacket) (sequenceNumber : ℤ)
    (isRetransmit : Bool) : Bool × TrackStatistics :=
  match t.receivedSeqOutOfOrder with
  | none => t.updateReordered packet sequenceNumber isRetransmit
  | some outOfOrder =>
      let t := { t with
        cumulativeLoss := int32 (t.cumulativeLoss-1)
        receivedSeqOutOfOrder := none }
      if packet.sequenceNumber = outOfOrder+1 then
        (false,{ t with lastReportSeqMax := sequenceNumber-2, receivedSeqMax := sequenceNumber-2 })
      else t.updateReordered packet sequenceNumber isRetransmit

/-- The part of `ReceivePacket` for a packet in order. -/
def receiveInOrder (t : TrackStatistics) (packet : RtpPacket) (sequenceNumber nowMs : ℤ) :
    TrackStatistics :=
  { t with
    cumulativeLoss := int32 (t.cumulativeLoss + (sequenceNumber - t.receivedSeqMax))
    receivedSeqMax := sequenceNumber
    seqUnwrapper := t.seqUnwrapper.updateLast sequenceNumber
    jitterQ4 :=
      if packet.timestamp ≠ t.lastReceivedTimestamp ∧
          1 < (t.transmittedPackets - t.retransmittedPackets).toNat then
        t.updateJitter packet nowMs
      else t.jitterQ4
    lastReceivedTimestamp := packet.timestamp
    lastReceiveTimeMs := nowMs }

def receivePacket (t : TrackStatistics) (packet : RtpPacket) (isRetransmit : Bool) (nowMs : ℤ) :
    TrackStatistics :=
  if t.ssrc ≠ packet.ssrc then t
  else
    let (sequenceNumber,seqUnwrapper) := t.seqUnwrapper.unwrapWithoutUpdate packet.sequenceNumber
    let t := { t with
      transmittedPackets := t.transmittedPackets+1
      cumulativeLoss := int32 (t.cumulativeLoss-1)
      seqUnwrapper := seqUnwrapper }
    if t.receivedSeqFirst = -1 then
      receiveInOrder { t with
        receivedSeqFirst := sequenceNumber
        lastReportSeqMax := sequenceNumber-1
        receivedSeqMax := sequenceNumber-1 } packet sequenceNumber nowMs
    else
      let (outOfOrder,t) := t.updateOutOfOrder packet sequenceNumber isRetransmit
      if outOfOrder then t else t.receiveInOrder packet sequenceNumber nowMs

/-- The clamped loss of a report, and the offset after it. -/
def packetsLost (t : TrackStatistics) : ℤ × ℤ :=
  let packetsLost := int32 (t.cumulativeLoss + t.cumulativeLossRtcpOffset)
  if packetsLost < 0 then (0,int32 (-t.cumulativeLoss))
  else (min packetsLost 0x7fffff,t.cumulativeLossRtcpOffset)

def fractionLost (t : TrackStatistics) : BitVec 8 :=
  let expSinceLast := t.receivedSeqMax - t.lastReportSeqMax
  let lostSinceLast := int32 (t.cumulativeLoss - t.lastReportCumulativeLoss)
  if 0 < expSinceLast ∧ 0 < lostSinceLast then
    BitVec.ofInt 8 ((int32 (255*lostSinceLast)).tdiv expSinceLast)
  else 0

/-- The appended block, if one is, and the statistics after the call. -/
def maybeAppendReportBlockAndReset (t : TrackStatistics) (nowMs : ℤ) :
    Option ReportBlock × TrackStatistics :=
  if kStatisticsTimeoutMs ≤ nowMs - t.lastReceiveTimeMs ∨ t.receivedSeqFirst = -1 then (none,t)
  else
    (some {
        sourceSsrc := t.ssrc
        fractionLost := t.fractionLost
        cumulativeLost := BitVec.ofInt 32 t.packetsLost.1
        extendedHighSeqNum := BitVec.ofInt 32 t.receivedSeqMax
        jitter := t.jitterQ4 >>> 4
        lastSr := 0
        delaySinceLastSr := 0 },
      { t with
        cumulativeLossRtcpOffset := t.packetsLost.2
        lastReportCumulativeLoss := t.cumulativeLoss
        lastReportSeqMax := t.receivedSeqMax })

end TrackStatistics
end Ylrtc.Statistics
