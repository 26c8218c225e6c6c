import Ylrtc.Lib.Run
import Ylrtc.Transport.TrackStatistics

/-!
# Runs of the statistics

Packets and reports in any order. `receivePacket_outcome` says once what a packet can do.
-/
namespace Ylrtc.Statistics
open MachineInt Packet Run RtcpPackets SequenceNumber TrackStatistics

/-- The calls that the statistics get, with what they find. -/
inductive Call where
  | receivePacket (packet : RtpPacket) (isRetransmit : Bool) (nowMs : ℤ)
  | maybeAppendReportBlockAndReset (nowMs : ℤ)

def call (t : TrackStatistics) : Call → TrackStatistics
  | .receivePacket packet isRetransmit nowMs => t.receivePacket packet isRetransmit nowMs
  | .maybeAppendReportBlockAndReset nowMs => (t.maybeAppendReportBlockAndReset nowMs).2

/-- The statistics of a new track. -/
def fresh (ssrc clockRate : BitVec 32) (enable : Bool) : TrackStatistics :=
  { ssrc := ssrc, clockRate := clockRate, enableRetransmitDetection := enable }

/-- The unwrapped number of a packet. -/
def TrackStatistics.unwrapped (t : TrackStatistics) (packet : RtpPacket) : ℤ :=
  (t.seqUnwrapper.unwrapWithoutUpdate packet.sequenceNumber).1

/-- What every packet changes first. -/
def TrackStatistics.entered (t : TrackStatistics) (packet : RtpPacket) : TrackStatistics :=
  { t with
    transmittedPackets := t.transmittedPackets+1
    cumulativeLoss := int32 (t.cumulativeLoss-1)
    seqUnwrapper := (t.seqUnwrapper.unwrapWithoutUpdate packet.sequenceNumber).2 }

/-- With the packet that waited for a restart counted as received. -/
def TrackStatistics.counted (t : TrackStatistics) (packet : RtpPacket) : TrackStatistics :=
  if t.receivedSeqOutOfOrder.isSome then
    { t.entered packet with
      cumulativeLoss := int32 ((t.entered packet).cumulativeLoss-1)
      receivedSeqOutOfOrder := none }
  else t.entered packet

/-- The packet is the second one of a stream restart. -/
def Restarts (t : TrackStatistics) (packet : RtpPacket) : Prop :=
  ∃ w, t.receivedSeqOutOfOrder = some w ∧ packet.sequenceNumber = w+1

/-- The statistics after a packet, by the branch that it takes. -/
inductive Outcome (t : TrackStatistics) (packet : RtpPacket) (nowMs : ℤ) : TrackStatistics → Prop
  | foreign (h : t.ssrc ≠ packet.ssrc) : Outcome t packet nowMs t
  | first (hssrc : t.ssrc = packet.ssrc) (h : t.receivedSeqFirst = -1) :
      Outcome t packet nowMs (receiveInOrder { t.entered packet with
        receivedSeqFirst := t.unwrapped packet
        lastReportSeqMax := t.unwrapped packet-1
        receivedSeqMax := t.unwrapped packet-1 } packet (t.unwrapped packet) nowMs)
  | restart (hssrc : t.ssrc = packet.ssrc) (hstarted : t.receivedSeqFirst ≠ -1)
      (h : Restarts t packet) :
      Outcome t packet nowMs (receiveInOrder { t.counted packet with
        lastReportSeqMax := t.unwrapped packet-2
        receivedSeqMax := t.unwrapped packet-2 } packet (t.unwrapped packet) nowMs)
  | far (hssrc : t.ssrc = packet.ssrc) (hstarted : t.receivedSeqFirst ≠ -1)
      (hnot : ¬Restarts t packet)
      (h : kDefaultMaxReorderingThreshold < |t.unwrapped packet-t.receivedSeqMax|) :
      Outcome t packet nowMs { t.counted packet with
        receivedSeqOutOfOrder := some packet.sequenceNumber
        cumulativeLoss := int32 ((t.counted packet).cumulativeLoss+1) }
  | ahead (hssrc : t.ssrc = packet.ssrc) (hstarted : t.receivedSeqFirst ≠ -1)
      (hnot : ¬Restarts t packet)
      (hnear : |t.unwrapped packet-t.receivedSeqMax| ≤ kDefaultMaxReorderingThreshold)
      (h : t.receivedSeqMax < t.unwrapped packet) :
      Outcome t packet nowMs
        (receiveInOrder (t.counted packet) packet (t.unwrapped packet) nowMs)
  | behind (hssrc : t.ssrc = packet.ssrc) (hstarted : t.receivedSeqFirst ≠ -1)
      (hnot : ¬Restarts t packet)
      (hnear : |t.unwrapped packet-t.receivedSeqMax| ≤ kDefaultMaxReorderingThreshold)
      (h : t.unwrapped packet ≤ t.receivedSeqMax) (retransmitted : BitVec 32) :
      Outcome t packet nowMs { t.counted packet with retransmittedPackets := retransmitted }

section Packets
variable (t : TrackStatistics) (packet : RtpPacket) (isRetransmit : Bool) (nowMs : ℤ)

@[simp] theorem counted_receivedSeqMax : (t.counted packet).receivedSeqMax = t.receivedSeqMax := by
  unfold TrackStatistics.counted
  split <;> rfl

/-- The last part of `UpdateOutOfOrder`, by its three ends. -/
theorem updateReordered_cases (seq : ℤ) :
    (kDefaultMaxReorderingThreshold < |seq-t.receivedSeqMax| ∧
      t.updateReordered packet seq isRetransmit = (true,{ t with
        receivedSeqOutOfOrder := some packet.sequenceNumber
        cumulativeLoss := int32 (t.cumulativeLoss+1) })) ∨
    (|seq-t.receivedSeqMax| ≤ kDefaultMaxReorderingThreshold ∧ t.receivedSeqMax < seq ∧
      t.updateReordered packet seq isRetransmit = (false,t)) ∨
    (|seq-t.receivedSeqMax| ≤ kDefaultMaxReorderingThreshold ∧ seq ≤ t.receivedSeqMax ∧
      ∃ r, t.updateReordered packet seq isRetransmit = (true,{ t with retransmittedPackets := r })) := by
  unfold updateReordered
  split_ifs with hfar hahead hre
  · exact .inl ⟨hfar,rfl⟩
  · exact .inr (.inl ⟨Int.not_lt.mp hfar,hahead,rfl⟩)
  · exact .inr (.inr ⟨Int.not_lt.mp hfar,Int.not_lt.mp hahead,_,rfl⟩)
  · exact .inr (.inr ⟨Int.not_lt.mp hfar,Int.not_lt.mp hahead,_,rfl⟩)

theorem updateOutOfOrder_eq (hnot : ¬Restarts t packet) :
    (t.entered packet).updateOutOfOrder packet (t.unwrapped packet) isRetransmit =
      (t.counted packet).updateReordered packet (t.unwrapped packet) isRetransmit := by
  have hwait : (t.entered packet).receivedSeqOutOfOrder = t.receivedSeqOutOfOrder := rfl
  unfold updateOutOfOrder TrackStatistics.counted
  cases hw : t.receivedSeqOutOfOrder with
  | none => simp only [hwait,hw,Option.isSome_none,Bool.false_eq_true,if_false]
  | some w =>
      simp only [hwait,hw,Option.isSome_some,if_true]
      rw [if_neg fun hnext => hnot ⟨w,hw,hnext⟩]

/-- What a packet can do. -/
theorem receivePacket_outcome :
    Outcome t packet nowMs (t.receivePacket packet isRetransmit nowMs) := by
  by_cases hssrc : t.ssrc = packet.ssrc
  · by_cases hfirst : t.receivedSeqFirst = -1
    · have heq : t.receivePacket packet isRetransmit nowMs =
          receiveInOrder { t.entered packet with
            receivedSeqFirst := t.unwrapped packet
            lastReportSeqMax := t.unwrapped packet-1
            receivedSeqMax := t.unwrapped packet-1 } packet (t.unwrapped packet) nowMs := by
        rw [receivePacket,if_neg (not_not.mpr hssrc)]
        simp only [hfirst,if_true]
        rfl
      rw [heq]
      exact .first hssrc hfirst
    · have heq : t.receivePacket packet isRetransmit nowMs =
          let u := (t.entered packet).updateOutOfOrder packet (t.unwrapped packet) isRetransmit
          if u.1 then u.2 else u.2.receiveInOrder packet (t.unwrapped packet) nowMs := by
        rw [receivePacket,if_neg (not_not.mpr hssrc)]
        simp only [hfirst,if_false]
        rfl
      rw [heq]
      by_cases hrestart : Restarts t packet
      · obtain ⟨w,hw,hnext⟩ := hrestart
        have hu : (t.entered packet).updateOutOfOrder packet (t.unwrapped packet) isRetransmit =
            (false,{ t.counted packet with
              lastReportSeqMax := t.unwrapped packet-2
              receivedSeqMax := t.unwrapped packet-2 }) := by
          have hwait : (t.entered packet).receivedSeqOutOfOrder = some w := hw
          unfold updateOutOfOrder TrackStatistics.counted
          simp only [hwait,hw,hnext,if_true,Option.isSome_some]
        rw [hu]
        exact .restart hssrc hfirst ⟨w,hw,hnext⟩
      · rw [updateOutOfOrder_eq t packet isRetransmit hrestart]
        rcases updateReordered_cases (t.counted packet) packet isRetransmit (t.unwrapped packet) with
          ⟨hfar,hu⟩ | ⟨hnear,hahead,hu⟩ | ⟨hnear,hbehind,r,hu⟩
        · rw [counted_receivedSeqMax] at hfar
          rw [hu]
          exact .far hssrc hfirst hrestart hfar
        · rw [counted_receivedSeqMax] at hnear hahead
          rw [hu]
          exact .ahead hssrc hfirst hrestart hnear hahead
        · rw [counted_receivedSeqMax] at hnear hbehind
          rw [hu]
          exact .behind hssrc hfirst hrestart hnear hbehind r
  · rw [receivePacket,if_pos hssrc]
    exact .foreign hssrc

end Packets

end Ylrtc.Statistics
