import Mathlib.Algebra.Order.Ring.Abs
import Mathlib.Algebra.Order.Ring.Int
import Mathlib.Data.BitVec
import Ylrtc.Lib.MachineInt
import Ylrtc.Transport.CarriedNumbers
import Ylrtc.Transport.OutputNumbers

/-!
# Timestamps across layer switches

At a switch the offset between the timestamps of two layers is taken from their last sender
reports, and it stays until the next one. The clocks of the layers are functions of the time of
capture in milliseconds that run through these reports.
-/
namespace Ylrtc.LayerTimestamps
open ByteBuffer CursorParser MachineInt OutputNumbers Packet Run Subscribe
open RtpPacket SubscribeStream
open TransportNumbers (nextNumber)

/-- What a switch is made from. -/
structure Switch where
  reference : SenderReport
  target : SenderReport
  clockRate : BitVec 32

/-- The switch that an event makes. -/
def switchAt (s : SubscribeStream) : Event → Option Switch
  | .receivePublishStreamRtpPacket publisher rtpPacket behind _ =>
      if (s.selectPacket publisher rtpPacket behind).1.currentLayerRid = s.currentLayerRid then none
      else
        match publisher.bind fun p => p.lastSrRequested s.referenceLayerRid,
            publisher.bind fun p => p.lastSrRequested s.targetLayerRid,
            s.ssrcTrackMap rtpPacket.1.ssrc with
        | some reference,some target,some track =>
            some ⟨reference,target,track.configuration.clockRate⟩
        | _,_,_ => none
  | _ => none

/-- The times that `ToMillis` gives, and rates below 2^20. -/
structure Switch.InRange (w : Switch) : Prop where
  reference : 0 ≤ w.reference.ntpMillis ∧ w.reference.ntpMillis ≤ 1000*2^32
  target : 0 ≤ w.target.ntpMillis ∧ w.target.ntpMillis ≤ 1000*2^32
  clockRate : w.clockRate.toNat < 2^20

/-- The offset as it is computed in `int64_t` and `uint32_t`. -/
def Switch.offset (w : Switch) : BitVec 32 :=
  let diffNtpMillis :=
    if w.reference.ntpMillis ≤ w.target.ntpMillis then
      int64 (w.target.ntpMillis - w.reference.ntpMillis)
    else int64 (-1*int64 (w.reference.ntpMillis - w.target.ntpMillis))
  let diffRtpTimestamp := (int64 (diffNtpMillis*w.clockRate.toNat)).tdiv kNumMillisecsPerSec
  BitVec.ofInt 32 (int64 (w.target.rtpTimestamp.toNat - diffRtpTimestamp)) -
    w.reference.rtpTimestamp

theorem Switch.offset_eq {w : Switch} (h : w.InRange) :
    w.offset = timestampOffsetOf w.reference w.target w.clockRate := by
  have hreference := h.reference
  have htarget := h.target
  have hclock := h.clockRate
  have htimestamp := w.target.rtpTimestamp.isLt
  have hdiff : (if w.reference.ntpMillis ≤ w.target.ntpMillis then
        int64 (w.target.ntpMillis - w.reference.ntpMillis)
      else int64 (-1*int64 (w.reference.ntpMillis - w.target.ntpMillis))) =
        w.target.ntpMillis - w.reference.ntpMillis := by
    split
    · exact int64_of_range (by omega) (by omega)
    · rw [int64_of_range (x := w.reference.ntpMillis - w.target.ntpMillis) (by omega) (by omega),
        int64_of_range (by omega) (by omega)]
      omega
  have hproduct : |(w.target.ntpMillis - w.reference.ntpMillis)*w.clockRate.toNat| ≤
      1000*2^32*2^20 := by
    rw [abs_mul,Nat.abs_cast]
    exact mul_le_mul (abs_le.mpr ⟨by omega,by omega⟩) (by omega) (by omega) (by omega)
  have hbounds := abs_le.mp hproduct
  have hticks := tdiv_bounds ((w.target.ntpMillis - w.reference.ntpMillis)*w.clockRate.toNat)
    (show (0 : ℤ) < 1000 by decide)
  have hexact : int64 ((w.target.ntpMillis - w.reference.ntpMillis)*w.clockRate.toNat) =
      (w.target.ntpMillis - w.reference.ntpMillis)*w.clockRate.toNat :=
    int64_of_range (by omega) (by omega)
  unfold Switch.offset timestampOffsetOf
  simp only [hdiff,hexact,kNumMillisecsPerSec]
  rw [int64_of_range (by omega) (by omega)]

/-- A layer has no offset from itself. -/
theorem timestampOffsetOf_self (sr : SenderReport) (clockRate : BitVec 32) :
    timestampOffsetOf sr sr clockRate = 0 := by
  rw [timestampOffsetOf]
  simp only [Int.sub_self,Int.zero_mul,Int.zero_tdiv,Int.sub_zero]
  rw [BitVec.ofInt_natCast,BitVec.ofNat_toNat,BitVec.setWidth_eq]
  exact sub_self _

/-- The target layer's report comes 33 milliseconds later, its timestamps run 2682 ticks behind. -/
example : timestampOffsetOf ⟨5000,0xFFFFFF00⟩ ⟨5033,0x20⟩ 90000 = BitVec.ofInt 32 (-2682) := by
  decide

/-! ### The timestamp that goes out -/

theorem load32_setTimestamp {p : RtpPacket} (h : p.Valid) (timestamp : BitVec 32) :
    load32 (p.setTimestamp timestamp).data 4 = timestamp := by
  apply load32_of_getD
  intro i hlow hhigh
  have hlength := h.twelve_le
  simp only [RtpPacket.setTimestamp]
  rw [getD_store (by rw [storeUInt32BE_length]; omega),
    if_pos (by rw [storeUInt32BE_length]; omega)]

/-- What everything but a switch leaves alone. -/
structure SameOffset (s s' : SubscribeStream) : Prop where
  currentLayerRid : s'.currentLayerRid = s.currentLayerRid
  referenceLayerRid : s'.referenceLayerRid = s.referenceLayerRid
  timestampOffset : s'.timestampOffset = s.timestampOffset

theorem SameOffset.refl (s : SubscribeStream) : SameOffset s s := ⟨rfl,rfl,rfl⟩

theorem SameOffset.of_onlySends {s s' : SubscribeStream} (h : OnlySends s s') : SameOffset s s' := by
  rw [OnlySends] at h
  rw [h]
  exact ⟨rfl,rfl,rfl⟩

theorem sameOffset_requestFrame (s : SubscribeStream) (publisher : Option PublishStream)
    (rid : BitVec 32) : SameOffset s (s.requestFrame publisher rid) := by
  rw [requestFrame_eq]
  exact ⟨rfl,rfl,rfl⟩

/-- A switch of the layer, by the reports that the publish stream has. -/
structure Switched (s s' : SubscribeStream) (publisher : Option PublishStream)
    (track : SubscribeStreamTrack) (w : Switch) : Prop where
  reference : (publisher.bind fun p => p.lastSrRequested s.referenceLayerRid) = some w.reference
  target : (publisher.bind fun p => p.lastSrRequested s.targetLayerRid) = some w.target
  clockRate : w.clockRate = track.configuration.clockRate
  changed : s.currentLayerRid ≠ s.targetLayerRid
  currentLayerRid : s'.currentLayerRid = s.targetLayerRid
  referenceLayerRid : s'.referenceLayerRid = s.referenceLayerRid
  timestampOffset : s'.timestampOffset = timestampOffsetOf w.reference w.target w.clockRate

theorem switchLayer_offset (s : SubscribeStream) (publisher : Option PublishStream)
    (track : SubscribeStreamTrack) (packet : RtpPacket) (rid : BitVec 32) :
    SameOffset s (s.switchLayer publisher track packet rid) ∨
      ∃ w, Switched s (s.switchLayer publisher track packet rid) publisher track w := by
  rw [switchLayer]
  split
  · rename_i hswitch
    split
    · rename_i reference target hreference htarget
      exact Or.inr ⟨⟨reference,target,track.configuration.clockRate⟩,
        hreference,htarget,rfl,hswitch.1,rfl,rfl,rfl⟩
    · exact Or.inl (sameOffset_requestFrame s publisher _)
  · exact Or.inl (.refl s)

/-- A packet of a layer that is selected has the offset taken off. -/
structure Selected (s' : SubscribeStream) (p packet : RtpPacket) : Prop where
  bytes : load32 packet.data 4 = packet.timestamp
  timestamp : packet.timestamp = p.timestamp - s'.timestampOffset
  layer : streamId packet = some s'.currentLayerRid

/-- Where a packet of a known SSRC has a layer, the stream may switch to it first. -/
theorem switchLayer_received (s : SubscribeStream) (publisher : Option PublishStream)
    {ssrc : BitVec 32} {track : SubscribeStreamTrack} (htrack : s.ssrcTrackMap ssrc = some track)
    (packet : RtpPacket) (rid : BitVec 32) :
    SameOffset s (switchLayer { s with dataReceived := true } publisher track packet rid) ∨
      ∃ t w, s.ssrcTrackMap ssrc = some t ∧
        Switched s (switchLayer { s with dataReceived := true } publisher track packet rid)
          publisher t w := by
  cases switchLayer_offset { s with dataReceived := true } publisher track packet rid with
  | inl hsame =>
      exact Or.inl ⟨hsame.currentLayerRid,hsame.referenceLayerRid,hsame.timestampOffset⟩
  | inr hswitched =>
      cases hswitched with
      | intro w hw => exact Or.inr ⟨track,w,htrack,hw.reference,hw.target,hw.clockRate,
          hw.changed,hw.currentLayerRid,hw.referenceLayerRid,hw.timestampOffset⟩

theorem selectPacket_offset (s : SubscribeStream) (publisher : Option PublishStream)
    {p : RtpPacket} (hp : p.Valid) (behind : List Byte) :
    (SameOffset s (s.selectPacket publisher p behind).1 ∨ ∃ track w,
      s.ssrcTrackMap p.ssrc = some track ∧
        Switched s (s.selectPacket publisher p behind).1 publisher track w) ∧
    ∀ packet, (s.selectPacket publisher p behind).2 = some packet → streamId packet ≠ none →
      Selected (s.selectPacket publisher p behind).1 p packet := by
  have hselects := selectPacket_selects s publisher p behind
  generalize s.selectPacket publisher p behind = r at hselects ⊢
  cases hselects with
  | closed _ => exact ⟨Or.inl (.refl s),fun _ h => nomatch h⟩
  | waiting _ _ => exact ⟨Or.inl (sameOffset_requestFrame s publisher 0),fun _ h => nomatch h⟩
  | unknown _ => exact ⟨Or.inl ⟨rfl,rfl,rfl⟩,fun _ h => nomatch h⟩
  | plain _ hrid =>
      refine ⟨Or.inl ⟨rfl,rfl,rfl⟩,fun packet hpacket hlayer => ?_⟩
      rw [← Option.some.inj hpacket] at hlayer
      exact absurd hrid hlayer
  | @dropped track rid s' htrack _ hs' _ =>
      have hoffset := switchLayer_received s publisher htrack (track.clone p behind) rid
      rw [← hs'] at hoffset
      exact ⟨hoffset,fun _ h => nomatch h⟩
  | @selected track rid s' htrack hrid hs' hcurrent =>
      have hoffset := switchLayer_received s publisher htrack (track.clone p behind) rid
      rw [← hs'] at hoffset
      constructor
      · exact hoffset
      · intro packet hpacket _
        rw [← Option.some.inj hpacket]
        constructor
        · exact load32_setTimestamp (valid_clone track hp behind) _
        · rfl
        · rw [streamId_setTimestamp (valid_clone track hp behind),hrid,hcurrent]

/-- The offset is that of the last switch, and the reference layer has none. -/
structure Offset (o : SubscribeStream × Option Switch) : Prop where
  before : o.2 = none → o.1.currentLayerRid = o.1.referenceLayerRid ∧ o.1.timestampOffset = 0
  behind : ∀ w, o.2 = some w →
    o.1.timestampOffset = timestampOffsetOf w.reference w.target w.clockRate ∧
      (o.1.currentLayerRid = o.1.referenceLayerRid → w.reference = w.target)

theorem Offset.of_same {s s' : SubscribeStream} {sw : Option Switch} (h : Offset (s,sw))
    (hsame : SameOffset s s') : Offset (s',sw) := by
  constructor
  · intro hnone
    have hbefore := h.before hnone
    rw [hsame.currentLayerRid,hsame.referenceLayerRid,hsame.timestampOffset]
    exact hbefore
  · intro w hw
    have hbehind := h.behind w hw
    rw [hsame.currentLayerRid,hsame.referenceLayerRid,hsame.timestampOffset]
    exact hbehind

theorem Switched.offset {s s' : SubscribeStream} {publisher : Option PublishStream}
    {track : SubscribeStreamTrack} {w : Switch} (h : Switched s s' publisher track w) :
    Offset (s',some w) := by
  constructor
  · exact fun hnone => nomatch hnone
  · intro w' hw'
    rw [← Option.some.inj hw']
    refine ⟨h.timestampOffset,fun hlayer => ?_⟩
    -- both reports are the last one of the reference layer
    have hreference := h.reference
    rw [h.currentLayerRid,h.referenceLayerRid] at hlayer
    rw [← hlayer,h.target] at hreference
    exact (Option.some.inj hreference).symm

/-- The switch of a selected packet is the one that is observed. -/
theorem Offset.select {s : SubscribeStream} {sw : Option Switch} (h : Offset (s,sw))
    (publisher : Option PublishStream) (p : {p : RtpPacket // p.Valid}) (behind : List Byte)
    (nowMillis : ℤ) :
    Offset ((s.selectPacket publisher p behind).1,
      (switchAt s (.receivePublishStreamRtpPacket publisher p behind nowMillis)).or sw) := by
  rw [switchAt]
  cases (selectPacket_offset s publisher p.2 behind).1 with
  | inl hsame =>
      rw [if_pos hsame.currentLayerRid,Option.none_or]
      exact h.of_same hsame
  | inr hswitched =>
      cases hswitched with
      | intro track hswitched =>
          cases hswitched with
          | intro w hw =>
              have hchanged : (s.selectPacket publisher p.1 behind).1.currentLayerRid ≠
                  s.currentLayerRid := by
                rw [hw.2.currentLayerRid]
                exact hw.2.changed.symm
              rw [if_neg hchanged,hw.2.reference,hw.2.target,hw.1]
              simp only [Option.some_or]
              rw [← hw.2.clockRate]
              exact hw.2.offset

/-- The reference layer has no offset, before the first switch and behind one back to it. -/
theorem Offset.own {o : SubscribeStream × Option Switch} (h : Offset o)
    (hlayer : o.1.currentLayerRid = o.1.referenceLayerRid) : o.1.timestampOffset = 0 := by
  cases hw : o.2 with
  | none => exact (h.before hw).2
  | some w =>
      have hbehind := h.behind w hw
      rw [hbehind.1,hbehind.2 hlayer]
      exact timestampOffsetOf_self _ _

/-- The last reports: layer 2 runs 1000 ticks behind layer 1. -/
def reported : Option PublishStream :=
  some ⟨[⟨false,1,some ⟨5000,3000⟩⟩,⟨false,2,some ⟨5000,2000⟩⟩],[(2,800000),(1,200000)]⟩

end Ylrtc.LayerTimestamps
