import Mathlib.Algebra.Order.Round
import Ylrtc.Rtcp.NtpTime
import Ylrtc.Transport.NackRequester
import Ylrtc.Transport.PublishTrack
import Ylrtc.Transport.SubscribeStream

/-!
# Round trip times

A subscribe track takes the round trip from a receiver report, a publish track from the reply
to its receiver reference time. Both subtract modulo 2^32. The publish track also compares,
and what it compares with has no modulus: it misses the round trips around a wrap.
-/
namespace Ylrtc.RoundTripTimes
open Nack RtcpPackets Signaling
open Subscribe (SubscribeStreamTrack)

/-! ### Handlers -/

/-- `ReceiveReceiverReport` behind the clock, which the recorder reads again. -/
def receiveReceiverReportAt (t : SubscribeStreamTrack) (reportBlock : ReportBlock) (ntp : NtpTime)
    (nowMillis : ℤ) : SubscribeStreamTrack :=
  let compactNtp := ntp.toCompactNtp
  if reportBlock.lastSr ≠ 0 then
    let rtpCompactNtp := compactNtp-reportBlock.delaySinceLastSr-reportBlock.lastSr
    t.receiveReceiverReport (NtpTime.createFromCompactNtp rtpCompactNtp).toMillis nowMillis
  else t

def receiveReceiverReport (t : SubscribeStreamTrack) (reportBlock : ReportBlock)
    (nowMillis : ℤ) : SubscribeStreamTrack :=
  receiveReceiverReportAt t reportBlock (.createFromMillis (.ofInt 64 nowMillis)) nowMillis

/-- A publish track with its requester, which is there if NACK is enabled. -/
structure PublishStreamTrack extends PublishTrack.PublishStreamTrack where
  nackRequest : NackRequester := {}
  rttMillis : ℤ := 100

/-- `ReceiveDlrrSubBlock` behind the clock. -/
def receiveDlrrSubBlockAt (t : PublishStreamTrack) (subBlock : ReceiveTimeInfo) (ntp : NtpTime) :
    PublishStreamTrack :=
  if subBlock.ssrc = t.configuration.ssrc then
    let compactNtp := ntp.toCompactNtp
    if subBlock.lastRr ≠ 0 ∧ subBlock.lastRr+subBlock.delaySinceLastRr < compactNtp then
      let rtpCompactNtp := compactNtp-subBlock.delaySinceLastRr-subBlock.lastRr
      let rttMillis := (NtpTime.createFromCompactNtp rtpCompactNtp).toMillis
      { t with
        rttMillis := rttMillis
        nackRequest :=
          if t.configuration.nackEnabled then t.nackRequest.updateRtt rttMillis
          else t.nackRequest }
    else t
  else t

def receiveDlrrSubBlock (t : PublishStreamTrack) (subBlock : ReceiveTimeInfo) (nowMillis : ℤ) :
    PublishStreamTrack :=
  receiveDlrrSubBlockAt t subBlock (.createFromMillis (.ofInt 64 nowMillis))

/-! ### Milliseconds -/

/-- The milliseconds that are nearest to a number of 65536ths of a second. -/
def millis (compact : BitVec 32) : ℤ := round (1000*compact.toNat/2^16 : ℚ)

theorem toMillis_eq_millis (compact : BitVec 32) :
    (NtpTime.createFromCompactNtp compact).toMillis = millis compact := by
  have hquotient : (1000*compact.toNat/2^16 : ℚ)+1/2 =
      (1000*compact.toNat+2^15 : ℕ)/(2^16 : ℕ) := by
    push_cast
    ring
  rw [NtpTime.toMillis_createFromCompactNtp,millis,round_eq,hquotient,
    Rat.floor_natCast_div_natCast,Int.natCast_ediv]

/-! ### Round trips -/

/-- Both tracks come to this round trip, whatever they had before. -/
def BothSet (ntp : NtpTime) (last delay : BitVec 32) (rttMillis : ℤ) : Prop :=
  (∀ (t : SubscribeStreamTrack) (reportBlock : ReportBlock) (nowMillis : ℤ),
    reportBlock.lastSr = last → reportBlock.delaySinceLastSr = delay →
      (receiveReceiverReportAt t reportBlock ntp nowMillis).rttMillis = rttMillis) ∧
  ∀ t : PublishStreamTrack,
    (receiveDlrrSubBlockAt t ⟨t.configuration.ssrc,last,delay⟩ ntp).rttMillis = rttMillis

variable {ntp : NtpTime} {last delay : BitVec 32}

theorem rttMillis_receiveReceiverReportAt (t : SubscribeStreamTrack) {reportBlock : ReportBlock}
    (nowMillis : ℤ) (h : reportBlock.lastSr ≠ 0) :
    (receiveReceiverReportAt t reportBlock ntp nowMillis).rttMillis =
      millis (ntp.toCompactNtp-reportBlock.lastSr-reportBlock.delaySinceLastSr) := by
  have hsub : ntp.toCompactNtp-reportBlock.delaySinceLastSr-reportBlock.lastSr =
      ntp.toCompactNtp-reportBlock.lastSr-reportBlock.delaySinceLastSr := by grind
  rw [receiveReceiverReportAt]
  simp only [h,ne_eq,not_false_eq_true,if_true,SubscribeStreamTrack.receiveReceiverReport,hsub,
    toMillis_eq_millis]

/-- The publish track takes the round trip if the compared times have not wrapped. -/
theorem rttMillis_receiveDlrrSubBlockAt (t : PublishStreamTrack) (h : last ≠ 0) :
    (receiveDlrrSubBlockAt t ⟨t.configuration.ssrc,last,delay⟩ ntp).rttMillis =
      if last+delay < ntp.toCompactNtp then millis (ntp.toCompactNtp-last-delay)
      else t.rttMillis := by
  have hsub : ntp.toCompactNtp-delay-last = ntp.toCompactNtp-last-delay := by grind
  rw [receiveDlrrSubBlockAt]
  by_cases hless : last+delay < ntp.toCompactNtp
  · simp only [h,hless,ne_eq,not_false_eq_true,and_self,if_true,hsub,toMillis_eq_millis]
  · simp only [hless,and_false,if_true,if_false]

/-- Handlers that read the clock at one time agree where the compared times have not wrapped. -/
theorem rttMillis_of_clock (s : SubscribeStreamTrack) (t : PublishStreamTrack)
    {reportBlock : ReportBlock} {nowMillis : ℤ} (h : reportBlock.lastSr ≠ 0)
    (hless : reportBlock.lastSr+reportBlock.delaySinceLastSr <
      (NtpTime.createFromMillis (.ofInt 64 nowMillis)).toCompactNtp) :
    (receiveReceiverReport s reportBlock nowMillis).rttMillis =
      (receiveDlrrSubBlock t ⟨t.configuration.ssrc,reportBlock.lastSr,
        reportBlock.delaySinceLastSr⟩ nowMillis).rttMillis := by
  rw [receiveReceiverReport,receiveDlrrSubBlock,rttMillis_receiveReceiverReportAt s nowMillis h,
    rttMillis_receiveDlrrSubBlockAt t h,if_pos hless]

/-- The tracks agree on a round trip if no time that the publish track compares has wrapped. -/
theorem both_set_iff (ntp : NtpTime) (last delay : BitVec 32) (hlast : last ≠ 0) :
    BothSet ntp last delay (millis (ntp.toCompactNtp-last-delay)) ↔
      last+delay < ntp.toCompactNtp := by
  constructor
  · rintro ⟨_,hpublish⟩
    by_contra hless
    have hkept := hpublish
      { toPublishStreamTrack := PublishTrack.make { ssrc := 0, payloadType := 0 }
        rttMillis := millis (ntp.toCompactNtp-last-delay)+1 }
    rw [rttMillis_receiveDlrrSubBlockAt _ hlast,if_neg hless] at hkept
    exact absurd hkept (Int.ne_of_gt (Int.lt_succ _))
  · intro hless
    constructor
    · rintro t reportBlock nowMillis rfl rfl
      exact rttMillis_receiveReceiverReportAt t nowMillis hlast
    · intro t
      rw [rttMillis_receiveDlrrSubBlockAt t hlast,if_pos hless]

theorem both_set_iff_second : BothSet ⟨100,0⟩ (98 <<< 16) (1 <<< 16) (millis (1 <<< 16)) :=
  (both_set_iff ⟨100,0⟩ (98 <<< 16) (1 <<< 16) (by decide)).mpr (by decide)

/-- A report from before the wrap, answered behind it. -/
theorem not_both_set : ¬ ∀ (ntp : NtpTime) (last delay : BitVec 32), last ≠ 0 →
    (ntp.toCompactNtp-last-delay).toNat < 2^31 →
      BothSet ntp last delay (millis (ntp.toCompactNtp-last-delay)) := by
  intro hall
  have hboth := hall ⟨0,0⟩ (0xFFFF <<< 16) 0 (by decide) (by decide)
  have hset := hboth.2 { toPublishStreamTrack := PublishTrack.make { ssrc := 0, payloadType := 0 } }
  rw [rttMillis_receiveDlrrSubBlockAt _ (by decide),if_neg (by decide)] at hset
  exact absurd hset (by decide +kernel)

end Ylrtc.RoundTripTimes
