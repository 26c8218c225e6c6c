import Mathlib.Algebra.Order.Group.Abs
import Ylrtc.Transport.StatisticsRuns

/-!
# The jitter

The signed arithmetic of `UpdateJitter`, step by step. The jitter stays below sixteen
times the threshold, and no step overflows unless the difference of the two clocks is the
one 32-bit number without an absolute value, or the time since the last packet is too long.
-/
namespace Ylrtc.Statistics
open MachineInt Packet Run RtcpPackets SequenceNumber TrackStatistics

/-- The largest jitter in Q4. -/
abbrev kMaxJitterQ4 : ℤ := 16*449999

/-- `UpdateJitter` with every result of signed arithmetic checked, and the sum of the
unsigned accumulator as well. -/
def TrackStatistics.updateJitterChecked (t : TrackStatistics) (packet : RtpPacket)
    (receiveTimeMs : ℤ) : Option ℤ := do
  let receiveDiffMs ← checked 64 (receiveTimeMs-t.lastReceiveTimeMs)
  let product ← checked 64 (receiveDiffMs*t.clockRate.toNat)
  let receiveDiffRtp := BitVec.ofInt 32 (product.tdiv 1000)
  let timeDiffSamples := (receiveDiffRtp-(packet.timestamp-t.lastReceivedTimestamp)).toInt
  let timeDiffSamples ← checked 32 |timeDiffSamples|
  if timeDiffSamples < 450000 then
    let shifted ← checked 32 (timeDiffSamples*2^4)
    let jitterDiffQ4 := int32 (shifted-t.jitterQ4.toNat)
    let rounded ← checked 32 (jitterDiffQ4+8)
    checkedUnsigned 32 (t.jitterQ4.toNat+rounded/2^4)
  else some t.jitterQ4.toNat

/-- The packet is in order, has a new timestamp and is not the only one received. -/
def CallsUpdateJitter (t : TrackStatistics) (packet : RtpPacket) : Prop :=
  t.ssrc = packet.ssrc ∧
    (t.receivedSeqFirst = -1 ∨ Restarts t packet ∨
      (|t.unwrapped packet-t.receivedSeqMax| ≤ kDefaultMaxReorderingThreshold ∧
        t.receivedSeqMax < t.unwrapped packet)) ∧
    packet.timestamp ≠ t.lastReceivedTimestamp ∧
    1 < (t.transmittedPackets+1-t.retransmittedPackets).toNat

/-- The time since the last packet fits, and what it is in samples does not differ from the
timestamps by half of their range. -/
structure TimesFit (t : TrackStatistics) (packet : RtpPacket) (nowMs : ℤ) : Prop where
  time : -2^63 ≤ nowMs-t.lastReceiveTimeMs ∧ nowMs-t.lastReceiveTimeMs < 2^63
  samples : -2^63 ≤ (nowMs-t.lastReceiveTimeMs)*t.clockRate.toNat ∧
    (nowMs-t.lastReceiveTimeMs)*t.clockRate.toNat < 2^63
  difference : (((nowMs-t.lastReceiveTimeMs)*t.clockRate.toNat).tdiv 1000-
    (packet.timestamp.toNat-t.lastReceivedTimestamp.toNat)) % 2^32 ≠ 2^31

/-- The absolute value, which one number does not have. -/
theorem abs_toInt {d : BitVec 32} (hd : d.toInt ≠ -2^31) :
    (if d.msb then -d else d).toInt = |d.toInt| := by
  rw [BitVec.msb_eq_toInt]
  by_cases hneg : d.toInt < 0
  · rw [if_pos (decide_eq_true hneg),abs_of_neg hneg,BitVec.toInt_neg_of_ne_intMin]
    intro hmin
    apply hd
    rw [hmin]
    rfl
  · rw [if_neg (by simpa using hneg),abs_of_nonneg (Int.not_lt.mp hneg)]

/-- The recurrence in Q4 is the one of integers. -/
theorem smoothed_toNat {e j : BitVec 32} (he : 0 ≤ e.toInt) (he' : e.toInt < 450000)
    (hj : (j.toNat : ℤ) ≤ kMaxJitterQ4) :
    ((j+((e <<< 4)-j+8).sshiftRight 4).toNat : ℤ) = j.toNat+(e.toInt*2^4-j.toNat+8)/2^4 := by
  have hmax : kMaxJitterQ4 = 7199984 := rfl
  have hnat : e.toInt = e.toNat := BitVec.toInt_eq_toNat_of_msb (by
    rw [BitVec.msb_eq_toInt]
    exact decide_eq_false (Int.not_lt.mpr he))
  have hdiff : (e <<< 4)-j+8 = BitVec.ofInt 32 (e.toInt*2^4-j.toNat+8) := by
    apply BitVec.eq_of_toNat_eq
    rw [BitVec.toNat_add,BitVec.toNat_sub,BitVec.toNat_shiftLeft,Nat.shiftLeft_eq,
      BitVec.toNat_ofInt,hnat,show (8 : BitVec 32).toNat = 8 from rfl]
    omega
  have hvalue : (BitVec.ofInt 32 (e.toInt*2^4-j.toNat+8)).toInt = e.toInt*2^4-j.toNat+8 := by
    rw [BitVec.toInt_ofInt]
    exact int32_of_range (by omega) (by omega)
  have hshift : (((e <<< 4)-j+8).sshiftRight 4).toInt = (e.toInt*2^4-j.toNat+8)/2^4 := by
    rw [BitVec.toInt_sshiftRight,hdiff,hvalue,Int.shiftRight_eq_div_pow]
    rfl
  have hsum : (((e <<< 4)-j+8).sshiftRight 4) = BitVec.ofInt 32 ((e.toInt*2^4-j.toNat+8)/2^4) := by
    rw [← hshift,BitVec.ofInt_toInt]
  rw [hsum,BitVec.toNat_add,BitVec.toNat_ofInt]
  omega

/-- The new jitter is a weighted mean of the old one and the difference. -/
theorem smoothed_range {e j : ℤ} (he : 0 ≤ e) (he' : e < 450000) (hj : 0 ≤ j)
    (hj' : j ≤ kMaxJitterQ4) :
    0 ≤ j+(e*2^4-j+8)/2^4 ∧ j+(e*2^4-j+8)/2^4 ≤ kMaxJitterQ4 := by
  have hmax : kMaxJitterQ4 = 7199984 := rfl
  omega

section Call
variable {t : TrackStatistics} {packet : RtpPacket} {nowMs : ℤ}

/-- The difference of the clocks, as the code has it. -/
def timeDiffSamples (t : TrackStatistics) (packet : RtpPacket) (nowMs : ℤ) : BitVec 32 :=
  BitVec.ofInt 32 (((nowMs-t.lastReceiveTimeMs)*t.clockRate.toNat).tdiv 1000)-
    (packet.timestamp-t.lastReceivedTimestamp)

theorem timeDiffSamples_eq_min_iff : (timeDiffSamples t packet nowMs).toInt = -2^31 ↔
    (((nowMs-t.lastReceiveTimeMs)*t.clockRate.toNat).tdiv 1000-
      (packet.timestamp.toNat-t.lastReceivedTimestamp.toNat)) % 2^32 = 2^31 := by
  have hmod : ((timeDiffSamples t packet nowMs).toNat : ℤ) =
      (((nowMs-t.lastReceiveTimeMs)*t.clockRate.toNat).tdiv 1000-
        (packet.timestamp.toNat-t.lastReceivedTimestamp.toNat)) % 2^32 := by
    rw [timeDiffSamples,BitVec.toNat_sub,BitVec.toNat_sub,BitVec.toNat_ofInt]
    omega
  rw [← hmod,BitVec.toInt_eq_toNat_cond]
  split <;> omega

theorem updateJitter_eq : t.updateJitter packet nowMs =
    let d := timeDiffSamples t packet nowMs
    let e := if d.msb then -d else d
    if e.toInt < 450000 then t.jitterQ4+((e <<< 4)-t.jitterQ4+8).sshiftRight 4
    else t.jitterQ4 := rfl

/-- A call whose times fit: no step overflows, and the jitter stays in range. -/
theorem updateJitterChecked_of_fit (hj : (t.jitterQ4.toNat : ℤ) ≤ kMaxJitterQ4)
    (hfit : TimesFit t packet nowMs) :
    t.updateJitterChecked packet nowMs = some ((t.updateJitter packet nowMs).toNat : ℤ) ∧
      ((t.updateJitter packet nowMs).toNat : ℤ) ≤ kMaxJitterQ4 := by
  have hmax : kMaxJitterQ4 = 7199984 := rfl
  have hd : (timeDiffSamples t packet nowMs).toInt ≠ -2^31 :=
    fun hmin => hfit.difference (timeDiffSamples_eq_min_iff.mp hmin)
  have hlo := (timeDiffSamples t packet nowMs).le_toInt
  have hhi := (timeDiffSamples t packet nowMs).toInt_lt
  have habs := abs_toInt hd
  have hrange : |(timeDiffSamples t packet nowMs).toInt| < 2^31 := abs_lt.mpr ⟨by omega,by omega⟩
  have hnonneg := abs_nonneg (timeDiffSamples t packet nowMs).toInt
  have htime : checked 64 (nowMs-t.lastReceiveTimeMs) = some (nowMs-t.lastReceiveTimeMs) :=
    checked_eq_some hfit.time.1 hfit.time.2
  have hproduct : checked 64 ((nowMs-t.lastReceiveTimeMs)*t.clockRate.toNat) =
      some ((nowMs-t.lastReceiveTimeMs)*t.clockRate.toNat) :=
    checked_eq_some hfit.samples.1 hfit.samples.2
  have hdiff : checked 32 |(timeDiffSamples t packet nowMs).toInt| =
      some |(timeDiffSamples t packet nowMs).toInt| := checked_eq_some (by omega) hrange
  rw [updateJitter_eq]
  simp only [updateJitterChecked,htime,hproduct,Option.bind_eq_bind,Option.bind_some]
  rw [← timeDiffSamples,hdiff,Option.bind_some]
  simp only [habs]
  by_cases hsmall : |(timeDiffSamples t packet nowMs).toInt| < 450000
  · rw [if_pos hsmall,if_pos hsmall]
    have hsum := smoothed_toNat (habs ▸ hnonneg) (habs ▸ hsmall) hj
    rw [habs] at hsum
    have hnew := smoothed_range hnonneg hsmall (Int.natCast_nonneg _) hj
    rw [hsum,checked_eq_some (by omega) (by omega),Option.bind_some,
      int32_of_range (by omega) (by omega),checked_eq_some (by omega) (by omega),Option.bind_some,
      checkedUnsigned_eq_some hnew.1 (by omega)]
    exact ⟨rfl,hnew.2⟩
  · rw [if_neg hsmall,if_neg hsmall]
    exact ⟨rfl,hj⟩

/-- A call whose times do not fit overflows. -/
theorem updateJitterChecked_of_not_fit (hfit : ¬TimesFit t packet nowMs) :
    t.updateJitterChecked packet nowMs = none := by
  by_cases htime : -2^63 ≤ nowMs-t.lastReceiveTimeMs ∧ nowMs-t.lastReceiveTimeMs < 2^63
  · by_cases hproduct : -2^63 ≤ (nowMs-t.lastReceiveTimeMs)*t.clockRate.toNat ∧
        (nowMs-t.lastReceiveTimeMs)*t.clockRate.toNat < 2^63
    · have hmin : (timeDiffSamples t packet nowMs).toInt = -2^31 := by
        by_contra hd
        exact hfit ⟨htime,hproduct,fun h => hd (timeDiffSamples_eq_min_iff.mpr h)⟩
      have habs : checked 32 |(-2^31 : ℤ)| = none := by decide
      simp only [updateJitterChecked,Option.bind_eq_bind]
      rw [checked_eq_some htime.1 htime.2,Option.bind_some,
        checked_eq_some hproduct.1 hproduct.2,Option.bind_some,← timeDiffSamples,hmin,habs,
        Option.bind_none]
    · simp only [updateJitterChecked,Option.bind_eq_bind]
      rw [checked_eq_some htime.1 htime.2,Option.bind_some,checked_eq_none hproduct,
        Option.bind_none]
  · simp only [updateJitterChecked,Option.bind_eq_bind]
    rw [checked_eq_none htime,Option.bind_none]

end Call

/-- What has not happened yet when a packet turns out to be in order. -/
structure JitterUnchanged (t x : TrackStatistics) : Prop where
  jitter : x.jitterQ4 = t.jitterQ4
  clock : x.clockRate = t.clockRate
  time : x.lastReceiveTimeMs = t.lastReceiveTimeMs
  timestamp : x.lastReceivedTimestamp = t.lastReceivedTimestamp
  transmitted : x.transmittedPackets = t.transmittedPackets+1
  retransmitted : x.retransmittedPackets = t.retransmittedPackets

section Packets
variable {t x : TrackStatistics} {packet : RtpPacket} {nowMs : ℤ}

theorem jitterUnchanged_counted : JitterUnchanged t (t.counted packet) := by
  unfold TrackStatistics.counted
  split <;> exact ⟨rfl,rfl,rfl,rfl,rfl,rfl⟩

theorem JitterUnchanged.inOrder (h : JitterUnchanged t x) (seq : ℤ) :
    (x.receiveInOrder packet seq nowMs).jitterQ4 =
      if packet.timestamp ≠ t.lastReceivedTimestamp ∧
          1 < (t.transmittedPackets+1-t.retransmittedPackets).toNat then
        t.updateJitter packet nowMs
      else t.jitterQ4 := by
  have hcall : x.updateJitter packet nowMs = t.updateJitter packet nowMs := by
    simp only [updateJitter,h.jitter,h.clock,h.time,h.timestamp]
  rw [receiveInOrder,hcall,h.jitter,h.timestamp,h.transmitted,h.retransmitted]

/-- A packet changes the jitter by a call of `UpdateJitter`, or not at all. -/
theorem Outcome.jitter {t' : TrackStatistics} (h : Outcome t packet nowMs t') :
    (CallsUpdateJitter t packet → t'.jitterQ4 = t.updateJitter packet nowMs) ∧
      (¬CallsUpdateJitter t packet → t'.jitterQ4 = t.jitterQ4) := by
  have hinOrder : ∀ {x seq}, JitterUnchanged t x → t.ssrc = packet.ssrc →
      (t.receivedSeqFirst = -1 ∨ Restarts t packet ∨
        (|t.unwrapped packet-t.receivedSeqMax| ≤ kDefaultMaxReorderingThreshold ∧
          t.receivedSeqMax < t.unwrapped packet)) →
      (CallsUpdateJitter t packet →
          (x.receiveInOrder packet seq nowMs).jitterQ4 = t.updateJitter packet nowMs) ∧
        (¬CallsUpdateJitter t packet →
          (x.receiveInOrder packet seq nowMs).jitterQ4 = t.jitterQ4) := by
    intro x seq hx hssrc horder
    rw [hx.inOrder]
    constructor
    · exact fun hcalls => if_pos hcalls.2.2
    · exact fun hnot => if_neg fun hnew => hnot ⟨hssrc,horder,hnew⟩
  cases h with
  | foreign hssrc => exact ⟨fun hcalls => absurd hcalls.1 hssrc,fun _ => rfl⟩
  | first hssrc hfirst => exact hinOrder ⟨rfl,rfl,rfl,rfl,rfl,rfl⟩ hssrc (.inl hfirst)
  | restart hssrc hstarted hrestart =>
      have hx := @jitterUnchanged_counted t packet
      exact hinOrder ⟨hx.jitter,hx.clock,hx.time,hx.timestamp,hx.transmitted,hx.retransmitted⟩
        hssrc (.inr (.inl hrestart))
  | far hssrc hstarted hnot hfar =>
      refine ⟨fun hcalls => ?_,fun _ => jitterUnchanged_counted.jitter⟩
      rcases hcalls.2.1 with hfirst | hrestart | hnear
      · exact absurd hfirst hstarted
      · exact absurd hrestart hnot
      · exact absurd hfar (Int.not_lt.mpr hnear.1)
  | ahead hssrc hstarted hnot hnear hahead =>
      exact hinOrder jitterUnchanged_counted hssrc (.inr (.inr ⟨hnear,hahead⟩))
  | behind hssrc hstarted hnot hnear hbehind =>
      refine ⟨fun hcalls => ?_,fun _ => jitterUnchanged_counted.jitter⟩
      rcases hcalls.2.1 with hfirst | hrestart | hahead
      · exact absurd hfirst hstarted
      · exact absurd hrestart hnot
      · exact absurd hahead.2 (Int.not_lt.mpr hbehind)

end Packets

/-- A call of `UpdateJitter` meets no overflow, and leaves the jitter in range. -/
def JitterSound (t : TrackStatistics) : Call → Prop
  | .receivePacket packet isRetransmit nowMs => CallsUpdateJitter t packet →
      t.updateJitterChecked packet nowMs =
          some ((t.receivePacket packet isRetransmit nowMs).jitterQ4.toNat : ℤ) ∧
        ((t.receivePacket packet isRetransmit nowMs).jitterQ4.toNat : ℤ) ≤ kMaxJitterQ4
  | .maybeAppendReportBlockAndReset _ => True

/-- The times of a packet fit whenever it calls `UpdateJitter`. -/
def CallFits (t : TrackStatistics) : Call → Prop
  | .receivePacket packet _ nowMs => CallsUpdateJitter t packet → TimesFit t packet nowMs
  | .maybeAppendReportBlockAndReset _ => True

theorem jitterSound_iff (t : TrackStatistics) (e : Call)
    (hj : (t.jitterQ4.toNat : ℤ) ≤ kMaxJitterQ4) : JitterSound t e ↔ CallFits t e := by
  cases e with
  | receivePacket packet isRetransmit nowMs =>
      have hjitter := (receivePacket_outcome t packet isRetransmit nowMs).jitter.1
      apply imp_congr_right
      intro hcalls
      rw [hjitter hcalls]
      constructor
      · intro hsound
        by_contra hfit
        rw [updateJitterChecked_of_not_fit hfit] at hsound
        exact Option.some_ne_none _ hsound.1.symm
      · exact updateJitterChecked_of_fit hj
  | maybeAppendReportBlockAndReset nowMs => exact Iff.rfl

theorem call_jitter_le (t : TrackStatistics) (e : Call)
    (hj : (t.jitterQ4.toNat : ℤ) ≤ kMaxJitterQ4) (hfits : CallFits t e) :
    ((call t e).jitterQ4.toNat : ℤ) ≤ kMaxJitterQ4 := by
  cases e with
  | receivePacket packet isRetransmit nowMs =>
      have hjitter := (receivePacket_outcome t packet isRetransmit nowMs).jitter
      rw [call]
      by_cases hcalls : CallsUpdateJitter t packet
      · rw [hjitter.1 hcalls]
        exact (updateJitterChecked_of_fit hj (hfits hcalls)).2
      · rw [hjitter.2 hcalls]
        exact hj
  | maybeAppendReportBlockAndReset nowMs =>
      rw [call,maybeAppendReportBlockAndReset]
      split <;> exact hj

/-- Any packets at any times, with reports anywhere between them. -/
theorem run_jitter_sound_iff (ssrc clockRate : BitVec 32) (enable : Bool) (es : List Call) :
    (Along (fun before e => JitterSound (run call (fresh ssrc clockRate enable) before) e) es ∧
      ∀ before after, es = before++after →
        ((run call (fresh ssrc clockRate enable) before).jitterQ4.toNat : ℤ) ≤ kMaxJitterQ4) ↔
      Along (fun before e => CallFits (run call (fresh ssrc clockRate enable) before) e) es := by
  have hstart : ((fresh ssrc clockRate enable).jitterQ4.toNat : ℤ) ≤ kMaxJitterQ4 := by
    change (0 : ℤ) ≤ kMaxJitterQ4
    decide
  have hiff := along_iff_of_invariant
    (I := fun t : TrackStatistics => (t.jitterQ4.toNat : ℤ) ≤ kMaxJitterQ4) hstart
    (fun t e hj hsound => call_jitter_le t e hj ((jitterSound_iff t e hj).mp hsound))
    jitterSound_iff es
  constructor
  · exact fun h => hiff.mp h.1
  · intro hfits
    refine ⟨hiff.mpr hfits,fun before after hes => ?_⟩
    rw [hes] at hfits
    exact run_invariant_along
      (I := fun t : TrackStatistics => (t.jitterQ4.toNat : ℤ) ≤ kMaxJitterQ4) hstart
      call_jitter_le hfits.prefix

/-- Timestamps half of their range apart, received in the same millisecond. -/
theorem run_jitter_not_sound :
    ¬∀ (ssrc clockRate : BitVec 32) (enable : Bool) (es : List Call), clockRate.toNat < 2^20 →
      (es.map fun | .receivePacket _ _ nowMs => nowMs
                  | .maybeAppendReportBlockAndReset nowMs => nowMs).Pairwise (· ≤ ·) →
      Along (fun before e => JitterSound (run call (fresh ssrc clockRate enable) before) e) es := by
  let packet (number : BitVec 16) (timestamp : BitVec 32) : RtpPacket :=
    { marker := false, payloadType := 96, paddingSize := 0, sequenceNumber := number,
      timestamp := timestamp, ssrc := 1, payloadOffset := 12, payloadSize := 0,
      extensionEntries := [], extensionsSize := 0, data := [] }
  intro h
  have hsound := h 1 90000 false
    [.receivePacket (packet 0 0) false 1000,.receivePacket (packet 1 0x80000000) false 1000]
    (by decide) (by decide) [.receivePacket (packet 0 0) false 1000] _ [] rfl
  have hcalls : CallsUpdateJitter (run call (fresh 1 90000 false)
      [.receivePacket (packet 0 0) false 1000]) (packet 1 0x80000000) :=
    ⟨rfl,.inr (.inr (by decide)),by decide,by decide⟩
  exact absurd (hsound hcalls).1 (by decide)

end Ylrtc.Statistics
