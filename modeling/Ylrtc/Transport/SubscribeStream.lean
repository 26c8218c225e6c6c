import Ylrtc.Lib.Run
import Ylrtc.Transport.SendPacketRecorder
import Ylrtc.Transport.TransportSequence

/-!
# Subscribe streams

`SubscribeStreamTrack` and `SubscribeStream` of `transport/`, as far as packets go:
layer selection, the three send paths and what SRTP and the socket are handed.
A handler reads the clock once.

The timer that sends sender reports, the bit rate it depends on, and SDP are not
modelled.
-/
namespace Ylrtc.Subscribe
open ByteBuffer CursorParser HeaderExtension Packet Recorder SequenceNumber TransportNumbers

/-! ### Tracks -/

structure Configuration where
  rtxSsrc : BitVec 32 := 0
  rtxPayloadType : Byte := 0
  rtxEnabled : Bool := false
  nackEnabled : Bool := false
  clockRate : BitVec 32 := 0
  extensionCapability : RtpHeaderExtensionCapability := {}

structure SubscribeStreamTrack where
  configuration : Configuration
  rtxSequenceNumber : BitVec 16 := 0
  sendPacketRecorder : SendPacketRecorder := {}
  packetsSent : BitVec 32 := 0
  mediaBytesSent : ℕ := 0
  lastRtpTimestamp : BitVec 32 := 0
  lastSendTimestamp : ℤ := -1
  rttMillis : ℤ := 100
  maxRtpSeq : BitVec 16 := 0
  baseRtpSeq : BitVec 16 := 0
  firstPacket : Bool := true

namespace SubscribeStreamTrack

/-- The largest number sent, after one more. -/
def newMaxRtpSeq (t : SubscribeStreamTrack) (seq : BitVec 16) : BitVec 16 :=
  if t.firstPacket then seq else if seqNumGT seq t.maxRtpSeq then seq else t.maxRtpSeq

/-- The observer changes the packet before it is recorded. -/
def sendRtpPacket {σ : Type} (t : SubscribeStreamTrack) (rtpPacket : RtpPacket) (nowMillis : ℤ)
    (observer : RtpPacket → RtpPacket × σ) : SubscribeStreamTrack × σ :=
  let seq := t.baseRtpSeq + rtpPacket.sequenceNumber
  let r := observer (rtpPacket.setSequenceNumber seq)
  ({ t with
      packetsSent := t.packetsSent + 1
      mediaBytesSent := t.mediaBytesSent + rtpPacket.size
      lastRtpTimestamp := rtpPacket.timestamp
      lastSendTimestamp := nowMillis
      maxRtpSeq := t.newMaxRtpSeq seq
      firstPacket := false
      sendPacketRecorder :=
        if t.configuration.nackEnabled then t.sendPacketRecorder.record r.1 nowMillis
        else t.sendPacketRecorder },
    r.2)

/-- The two ways of sending a packet again. -/
structure Resender (σ : Type) where
  resendRtpPacket : RtpPacket → σ → σ
  sendRtxPacket : RtpPacket → Byte → BitVec 32 → BitVec 16 → σ → σ

/-- One round of the loop of `ReceiveNack`. -/
def resend {σ : Type} (observer : Resender σ) (nowMillis : ℤ) (ts : SubscribeStreamTrack × σ)
    (seqNum : BitVec 16) : SubscribeStreamTrack × σ :=
  let (t,s) := ts
  let (packet,recorder) := t.sendPacketRecorder.query seqNum nowMillis
  let t := { t with sendPacketRecorder := recorder }
  match packet with
  | none => (t,s)
  | some packet =>
      if !t.configuration.rtxEnabled then (t,observer.resendRtpPacket packet s)
      else
        ({ t with rtxSequenceNumber := t.rtxSequenceNumber + 1 },
          observer.sendRtxPacket packet t.configuration.rtxPayloadType t.configuration.rtxSsrc
            t.rtxSequenceNumber s)

def receiveNack {σ : Type} (t : SubscribeStreamTrack) (lostPackets : List (BitVec 16))
    (nowMillis : ℤ) (observer : Resender σ) (s : σ) : SubscribeStreamTrack × σ :=
  if !t.configuration.nackEnabled then (t,s)
  else lostPackets.foldl (resend observer nowMillis) (t,s)

/-- `ReceiveReceiverReport`, with the round trip time it computes. -/
def receiveReceiverReport (t : SubscribeStreamTrack) (rttMillis nowMillis : ℤ) :
    SubscribeStreamTrack :=
  { t with rttMillis := rttMillis
           sendPacketRecorder := t.sendPacketRecorder.setRtt rttMillis nowMillis }

def syncSequenceNumber (t : SubscribeStreamTrack) (seq : BitVec 16) : SubscribeStreamTrack :=
  { t with baseRtpSeq := t.maxRtpSeq - seq + 1 }

end SubscribeStreamTrack

/-! ### The publish stream behind it -/

/-- A sender report, its NTP time in milliseconds. -/
structure SenderReport where
  ntpMillis : ℤ
  rtpTimestamp : BitVec 32

structure PublishStreamTrack where
  audio : Bool
  rid : BitVec 32
  lastSr : Option SenderReport

/-- What the publish stream answers from: `tracks_`, and for each entry of
`rid_track_map_`, largest RID first, the bit rate of its track. -/
structure PublishStream where
  tracks : List PublishStreamTrack
  ridTrackMap : List (BitVec 32 × ℤ)

namespace PublishStream

/-- `OnSubscribeStreamLastSrRequested`: the last track with this RID decides. -/
def lastSrRequested (p : PublishStream) (rid : BitVec 32) : Option SenderReport :=
  p.tracks.foldl (fun sr track => if !track.audio && track.rid = rid then track.lastSr else sr) none

/-- `OnSubscribeStreamQueryRID`. -/
def queryRID (p : PublishStream) (want : BitVec 32) : BitVec 32 :=
  match p.ridTrackMap.find? fun e => e.1 ≤ want && 0 < e.2 with
  | some e => e.1
  | none => (p.ridTrackMap.getLast?.map Prod.fst).getD 0

end PublishStream

/-! ### Streams -/

abbrev kNumMillisecsPerSec : ℤ := 1000
abbrev kMaxSimulcastLayers : BitVec 32 := 3
abbrev kInvalidLayerIndex : BitVec 32 := 0

/-- libsrtp, the socket and the memory pool: whether they take the `n`-th packet,
and what the pool's buffer for it holds before. -/
structure Environment where
  takes : ℕ → Bool
  poolMemory : ℕ → ℕ → Byte

/-- A packet handed to the socket: its plain bytes, the packet they come from, the
extension map negotiated for its track, the counter and the number recorded. -/
structure Transmission where
  bytes : List Byte
  packet : RtpPacket
  capability : RtpHeaderExtensionCapability
  transportSeq : ℕ
  recorded : BitVec 16

structure SubscribeStream where
  environment : Environment
  ssrcTrackMap : BitVec 32 → Option SubscribeStreamTrack
  connectionEstablished : Bool := false
  dataReceived : Bool := false
  currentLayerRid : BitVec 32 := 1
  targetLayerRid : BitVec 32 := 1
  referenceLayerRid : BitVec 32 := 1
  timestampOffset : BitVec 32 := 0
  sequence : TransportSequence := {}
  frameRequests : List (BitVec 32) := []
  socket : List Transmission := []

namespace SubscribeStream

def setTrack (s : SubscribeStream) (ssrc : BitVec 32) (t : SubscribeStreamTrack) :
    SubscribeStream :=
  { s with ssrcTrackMap := fun x => if x = ssrc then some t else s.ssrcTrackMap x }

/-- `OnSubscribeStreamFrameRequested`, if the publish stream still exists. -/
def requestFrame (s : SubscribeStream) (publisher : Option PublishStream) (rid : BitVec 32) :
    SubscribeStream :=
  if publisher.isSome then { s with frameRequests := s.frameRequests++[rid] } else s

/-- `++transport_seq_` and `InjectSendSideTWCC`. -/
def advance (s : SubscribeStream) (packet : RtpPacket) (nowMillis : ℤ) : SubscribeStream :=
  { s with sequence := transmit s.sequence nowMillis packet.size }

/-- The end of every send path. The packet has been counted and recorded. -/
def handOver (s : SubscribeStream) (capability : RtpHeaderExtensionCapability)
    (packet : RtpPacket) (bytes : List Byte) : SubscribeStream :=
  if s.environment.takes s.sequence.transportSeq then
    let number := BitVec.ofNat 16 s.sequence.transportSeq
    { s with socket := s.socket++[⟨bytes,packet,capability,s.sequence.transportSeq,number⟩] }
  else s

def sendRtp (s : SubscribeStream) (capability : RtpHeaderExtensionCapability)
    (packet : RtpPacket) : SubscribeStream :=
  if !s.connectionEstablished then s
  else s.handOver capability packet (packet.data.take packet.size)

def onSubscribeStreamTrackSendRtpPacket (s : SubscribeStream) (nowMillis : ℤ)
    (capability : RtpHeaderExtensionCapability) (packet : RtpPacket) :
    RtpPacket × SubscribeStream :=
  let packet := packet.setTransportSequenceNumber (nextNumber s.sequence)
  (packet,(s.advance packet nowMillis).sendRtp capability packet)

def onSubscribeStreamTrackResendRtpPacket (nowMillis : ℤ)
    (capability : RtpHeaderExtensionCapability) (packet : RtpPacket) (s : SubscribeStream) :
    SubscribeStream :=
  if !s.connectionEstablished then s
  else
    let packet := packet.setTransportSequenceNumber (nextNumber s.sequence)
    (s.advance packet nowMillis).sendRtp capability packet

/-- The buffer of a retransmission, over what the pool's memory held: header,
original number, payload. Padding is counted but not copied. -/
def rtxBytes (memory : ℕ → Byte) (packet : RtpPacket) (payloadType : Byte) (ssrc : BitVec 32)
    (sequenceNumber : BitVec 16) : List Byte :=
  let buffer := (List.range (packet.size+kRtxHeaderSize)).map memory
  let buffer := store buffer 0 (packet.data.take packet.payloadOffset)
  let buffer := store buffer (packet.payloadOffset+kRtxHeaderSize)
    ((packet.data.drop packet.payloadOffset).take packet.payloadSize)
  let buffer := store buffer packet.payloadOffset (storeUInt16BE packet.sequenceNumber)
  if packet.size+kRtxHeaderSize < kMinRtpPacketLen then buffer
  else
    let buffer := store buffer 8 (storeUInt32BE ssrc)
    let buffer := store buffer 1 [(buffer.getD 1 0 &&& 0x80) ||| payloadType]
    store buffer 2 (storeUInt16BE sequenceNumber)

def onSubscribeStreamTrackSendRtxPacket (nowMillis : ℤ)
    (capability : RtpHeaderExtensionCapability) (packet : RtpPacket) (payloadType : Byte)
    (ssrc : BitVec 32) (sequenceNumber : BitVec 16) (s : SubscribeStream) : SubscribeStream :=
  if !s.connectionEstablished then s
  else
    let packet := packet.setTransportSequenceNumber (nextNumber s.sequence)
    let s := s.advance packet nowMillis
    s.handOver capability packet (rtxBytes (s.environment.poolMemory s.sequence.transportSeq)
      packet payloadType ssrc sequenceNumber)

def resender (nowMillis : ℤ) (capability : RtpHeaderExtensionCapability) :
    SubscribeStreamTrack.Resender SubscribeStream :=
  ⟨onSubscribeStreamTrackResendRtpPacket nowMillis capability,
    onSubscribeStreamTrackSendRtxPacket nowMillis capability⟩

/-- RTP timestamp of the target layer at the reference layer's last report, less
the reference layer's own. -/
def timestampOffsetOf (reference target : SenderReport) (clockRate : BitVec 32) : BitVec 32 :=
  let diffNtpMillis := target.ntpMillis - reference.ntpMillis
  let diffRtpTimestamp := (diffNtpMillis*clockRate.toNat).tdiv kNumMillisecsPerSec
  BitVec.ofInt 32 (target.rtpTimestamp.toNat - diffRtpTimestamp) - reference.rtpTimestamp

/-- The part of `ReceivePublishStreamRtpPacket` that changes the layer: at a
keyframe of the target layer, once both layers have a sender report. -/
def switchLayer (s : SubscribeStream) (publisher : Option PublishStream)
    (track : SubscribeStreamTrack) (clonePacket : RtpPacket) (rid : BitVec 32) : SubscribeStream :=
  if s.currentLayerRid ≠ s.targetLayerRid ∧ rid = s.targetLayerRid ∧ clonePacket.isKeyFrame then
    match publisher.bind fun p => p.lastSrRequested s.referenceLayerRid,
        publisher.bind fun p => p.lastSrRequested s.targetLayerRid with
    | some reference,some target =>
        setTrack { s with
          timestampOffset := timestampOffsetOf reference target track.configuration.clockRate
          currentLayerRid := s.targetLayerRid }
          clonePacket.ssrc (track.syncSequenceNumber clonePacket.sequenceNumber)
    | _,_ => s.requestFrame publisher s.targetLayerRid
  else s

def streamId (p : RtpPacket) : Option (BitVec 32) :=
  (p.getExtensionValue rtpStreamIdExtension).or
    (p.getExtensionValue repairedRtpStreamIdExtension)

/-- `ReceivePublishStreamRtpPacket` up to the call of `SendRtpPacket`, with the
packet it is called with. `behind` is the memory behind the copy that it makes. -/
def selectPacket (s : SubscribeStream) (publisher : Option PublishStream) (rtpPacket : RtpPacket)
    (behind : List Byte) : SubscribeStream × Option RtpPacket :=
  if !s.connectionEstablished then (s,none)
  else if !s.dataReceived && !rtpPacket.isKeyFrame then (s.requestFrame publisher 0,none)
  else
    let s := { s with dataReceived := true }
    let clonePacket := rtpPacket.copy behind
    match s.ssrcTrackMap clonePacket.ssrc with
    | none => (s,none)
    | some track =>
        let clonePacket :=
          clonePacket.updateExtensionCapability track.configuration.extensionCapability
        match streamId clonePacket with
        | none => (s,some clonePacket)
        | some rid =>
            let s := s.switchLayer publisher track clonePacket rid
            if rid ≠ s.currentLayerRid then (s,none)
            else (s,some (clonePacket.setTimestamp (clonePacket.timestamp - s.timestampOffset)))

/-- `SendRtpPacket` of the packet's track. -/
def forward (s : SubscribeStream) (clonePacket : RtpPacket) (nowMillis : ℤ) : SubscribeStream :=
  match s.ssrcTrackMap clonePacket.ssrc with
  | none => s
  | some track =>
      let r := track.sendRtpPacket clonePacket nowMillis
        (s.onSubscribeStreamTrackSendRtpPacket nowMillis track.configuration.extensionCapability)
      r.2.setTrack clonePacket.ssrc r.1

def receivePublishStreamRtpPacket (s : SubscribeStream) (publisher : Option PublishStream)
    (rtpPacket : RtpPacket) (behind : List Byte) (nowMillis : ℤ) : SubscribeStream :=
  match s.selectPacket publisher rtpPacket behind with
  | (s,none) => s
  | (s,some clonePacket) => s.forward clonePacket nowMillis

def setSimulcastLayer (s : SubscribeStream) (publisher : Option PublishStream) (rid : BitVec 32) :
    SubscribeStream :=
  if rid > kMaxSimulcastLayers || rid = kInvalidLayerIndex then s
  else if rid = s.currentLayerRid then s
  else
    match publisher with
    | none => s
    | some p =>
        let selectedRid := p.queryRID rid
        if selectedRid = 0 then s
        else requestFrame { s with targetLayerRid := selectedRid } publisher selectedRid

/-- A NACK for an unknown SSRC follows a null pointer in the source. -/
def receiveNack (s : SubscribeStream) (mediaSsrc : BitVec 32) (lostPackets : List (BitVec 16))
    (nowMillis : ℤ) : SubscribeStream :=
  match s.ssrcTrackMap mediaSsrc with
  | none => s
  | some track =>
      let r := track.receiveNack lostPackets nowMillis
        (resender nowMillis track.configuration.extensionCapability) s
      r.2.setTrack mediaSsrc r.1

def receiveReceiverReport (s : SubscribeStream) (mediaSsrc : BitVec 32)
    (rttMillis nowMillis : ℤ) : SubscribeStream :=
  match s.ssrcTrackMap mediaSsrc with
  | none => s
  | some track => s.setTrack mediaSsrc (track.receiveReceiverReport rttMillis nowMillis)

end SubscribeStream

/-- The handlers of the stream's thread, with what they are given. A packet comes
with the state the publish stream answers from, if it still exists, and with the memory
behind the copy of it. -/
inductive Event
  | dtlsTransportSetup
  | receivePublishStreamRtpPacket (publisher : Option PublishStream)
      (rtpPacket : {p : RtpPacket // p.Valid}) (behind : List Byte) (nowMillis : ℤ)
  | setSimulcastLayer (publisher : Option PublishStream) (rid : BitVec 32)
  | receiveNack (mediaSsrc : BitVec 32) (lostPackets : List (BitVec 16)) (nowMillis : ℤ)
  | receiveReceiverReport (mediaSsrc : BitVec 32) (rttMillis nowMillis : ℤ)
  | receiveTransportFeedback (feedback : FeedbackBuilder.TransportFeedback)

open SubscribeStream

def step (s : SubscribeStream) : Event → SubscribeStream
  | .dtlsTransportSetup => { s with connectionEstablished := true }
  | .receivePublishStreamRtpPacket publisher rtpPacket behind nowMillis =>
      s.receivePublishStreamRtpPacket publisher rtpPacket behind nowMillis
  | .setSimulcastLayer publisher rid => s.setSimulcastLayer publisher rid
  | .receiveNack mediaSsrc lostPackets nowMillis => s.receiveNack mediaSsrc lostPackets nowMillis
  | .receiveReceiverReport mediaSsrc rttMillis nowMillis =>
      s.receiveReceiverReport mediaSsrc rttMillis nowMillis
  | .receiveTransportFeedback feedback =>
      let twcc := (s.sequence.sendSideTwcc.receiveTransportFeedback feedback).2
      { s with sequence := { s.sequence with sendSideTwcc := twcc } }

/-- A new stream with a track for each negotiated SSRC. -/
def start (environment : Environment) (configurations : BitVec 32 → Option Configuration) :
    SubscribeStream where
  environment := environment
  ssrcTrackMap := fun ssrc => (configurations ssrc).map fun c => { configuration := c }

/-! ### What a packet leads to -/

/-- A request for a frame is only counted. -/
theorem requestFrame_eq (s : SubscribeStream) (publisher : Option PublishStream) (rid : BitVec 32) :
    s.requestFrame publisher rid =
      { s with frameRequests := (s.requestFrame publisher rid).frameRequests } := by
  rw [requestFrame]
  split
  · rfl
  · rfl

/-- The copy of a packet that is looked at, with the extension map of its track. -/
def SubscribeStreamTrack.clone (track : SubscribeStreamTrack) (rtpPacket : RtpPacket)
    (behind : List Byte) : RtpPacket :=
  { rtpPacket.copy behind with extensionCapability := track.configuration.extensionCapability }

theorem updateExtensionCapability_copy (track : SubscribeStreamTrack) (rtpPacket : RtpPacket)
    (behind : List Byte) :
    (rtpPacket.copy behind).updateExtensionCapability track.configuration.extensionCapability =
      track.clone rtpPacket behind := RtpPacket.updateExtensionCapability_of_empty rfl _

theorem valid_clone (track : SubscribeStreamTrack) {rtpPacket : RtpPacket} (h : rtpPacket.Valid)
    (behind : List Byte) : (track.clone rtpPacket behind).Valid :=
  have hcopy := h.copy behind
  ⟨hcopy.header,hcopy.size,hcopy.entries⟩

/-- The ways through `selectPacket`. A packet with a layer may switch the stream to it before
the layer is compared. -/
inductive Selects (s : SubscribeStream) (publisher : Option PublishStream) (p : RtpPacket)
    (behind : List Byte) : SubscribeStream × Option RtpPacket → Prop
  | closed : s.connectionEstablished = false → Selects s publisher p behind (s,none)
  | waiting : s.dataReceived = false → p.isKeyFrame = false →
      Selects s publisher p behind (s.requestFrame publisher 0,none)
  | unknown : s.ssrcTrackMap p.ssrc = none →
      Selects s publisher p behind ({ s with dataReceived := true },none)
  | plain {track : SubscribeStreamTrack} : s.ssrcTrackMap p.ssrc = some track →
      streamId (track.clone p behind) = none →
      Selects s publisher p behind ({ s with dataReceived := true },some (track.clone p behind))
  | dropped {track : SubscribeStreamTrack} {rid : BitVec 32} {s' : SubscribeStream} :
      s.ssrcTrackMap p.ssrc = some track → streamId (track.clone p behind) = some rid →
      s' = switchLayer { s with dataReceived := true } publisher track (track.clone p behind) rid →
      rid ≠ s'.currentLayerRid → Selects s publisher p behind (s',none)
  | selected {track : SubscribeStreamTrack} {rid : BitVec 32} {s' : SubscribeStream} :
      s.ssrcTrackMap p.ssrc = some track → streamId (track.clone p behind) = some rid →
      s' = switchLayer { s with dataReceived := true } publisher track (track.clone p behind) rid →
      rid = s'.currentLayerRid → Selects s publisher p behind
        (s',some ((track.clone p behind).setTimestamp (p.timestamp - s'.timestampOffset)))

theorem selectPacket_selects (s : SubscribeStream) (publisher : Option PublishStream)
    (p : RtpPacket) (behind : List Byte) :
    Selects s publisher p behind (s.selectPacket publisher p behind) := by
  rw [selectPacket]
  split
  · rename_i hclosed
    exact .closed (by simpa using hclosed)
  split
  · rename_i hwaiting
    rw [Bool.and_eq_true,Bool.not_eq_true',Bool.not_eq_true'] at hwaiting
    exact .waiting hwaiting.1 hwaiting.2
  simp only
  cases htrack : s.ssrcTrackMap (p.copy behind).ssrc with
  | none => exact .unknown htrack
  | some track =>
      simp only
      rw [updateExtensionCapability_copy]
      cases hrid : streamId (track.clone p behind) with
      | none => exact .plain htrack hrid
      | some rid =>
          simp only
          split
          · rename_i hother
            exact .dropped htrack hrid rfl hother
          · rename_i hcurrent
            exact .selected htrack hrid rfl (not_not.mp hcurrent)

/-! ### What sending leaves alone -/

/-- The send paths change the numbers and the socket only. -/
def OnlySends (s s' : SubscribeStream) : Prop :=
  s' = { s with sequence := s'.sequence, socket := s'.socket }

theorem OnlySends.trans {s s' s'' : SubscribeStream} (h : OnlySends s s')
    (h' : OnlySends s' s'') : OnlySends s s'' := by
  rw [OnlySends] at h h' ⊢
  rw [h',h]

theorem onlySends_advance (s : SubscribeStream) (packet : RtpPacket) (nowMillis : ℤ) :
    OnlySends s (s.advance packet nowMillis) := rfl

theorem onlySends_handOver (s : SubscribeStream) (c : RtpHeaderExtensionCapability)
    (packet : RtpPacket) (bytes : List Byte) : OnlySends s (s.handOver c packet bytes) := by
  rw [handOver]
  split
  · rfl
  · rfl

theorem onlySends_sendRtp (s : SubscribeStream) (c : RtpHeaderExtensionCapability)
    (packet : RtpPacket) : OnlySends s (s.sendRtp c packet) := by
  rw [sendRtp]
  split
  · rfl
  · exact onlySends_handOver s c packet _

theorem onlySends_send (s : SubscribeStream) (nowMillis : ℤ) (c : RtpHeaderExtensionCapability)
    (packet : RtpPacket) :
    OnlySends s (s.onSubscribeStreamTrackSendRtpPacket nowMillis c packet).2 :=
  (onlySends_advance s _ nowMillis).trans (onlySends_sendRtp _ c _)

theorem onlySends_resend (s : SubscribeStream) (nowMillis : ℤ)
    (c : RtpHeaderExtensionCapability) (packet : RtpPacket) :
    OnlySends s (onSubscribeStreamTrackResendRtpPacket nowMillis c packet s) := by
  rw [onSubscribeStreamTrackResendRtpPacket]
  split
  · rfl
  · exact (onlySends_advance s _ nowMillis).trans (onlySends_sendRtp _ c _)

theorem onlySends_rtx (s : SubscribeStream) (nowMillis : ℤ) (c : RtpHeaderExtensionCapability)
    (packet : RtpPacket) (payloadType : Byte) (ssrc : BitVec 32) (sequenceNumber : BitVec 16) :
    OnlySends s
      (onSubscribeStreamTrackSendRtxPacket nowMillis c packet payloadType ssrc sequenceNumber s) := by
  rw [onSubscribeStreamTrackSendRtxPacket]
  split
  · rfl
  · exact (onlySends_advance s _ nowMillis).trans (onlySends_handOver _ c _ _)

/-- Answering a NACK changes of a track its recorder and the number of the next
retransmission only. -/
theorem foldl_resend_frame (t : SubscribeStreamTrack) (s : SubscribeStream) (nowMillis : ℤ)
    (c : RtpHeaderExtensionCapability) (lost : List (BitVec 16)) :
    let r := lost.foldl (SubscribeStreamTrack.resend (resender nowMillis c) nowMillis) (t,s)
    OnlySends s r.2 ∧ r.1 = { t with
      sendPacketRecorder := r.1.sendPacketRecorder
      rtxSequenceNumber := r.1.rtxSequenceNumber } := by
  induction lost generalizing t s with
  | nil => exact ⟨rfl,rfl⟩
  | cons seqNum lost ih =>
      simp only [List.foldl_cons,SubscribeStreamTrack.resend]
      generalize t.sendPacketRecorder.query seqNum nowMillis = q
      obtain ⟨packet,recorder⟩ := q
      cases packet with
      | none => exact ih { t with sendPacketRecorder := recorder } s
      | some packet =>
          simp only
          split
          · obtain ⟨hs,ht⟩ := ih { t with sendPacketRecorder := recorder }
              (onSubscribeStreamTrackResendRtpPacket nowMillis c packet s)
            exact ⟨(onlySends_resend s nowMillis c packet).trans hs,ht⟩
          · obtain ⟨hs,ht⟩ := ih { t with
                sendPacketRecorder := recorder
                rtxSequenceNumber := t.rtxSequenceNumber+1 }
              (onSubscribeStreamTrackSendRtxPacket nowMillis c packet
                t.configuration.rtxPayloadType t.configuration.rtxSsrc t.rtxSequenceNumber s)
            exact ⟨(onlySends_rtx s nowMillis c packet _ _ _).trans hs,ht⟩

theorem forward_layers (s : SubscribeStream) (clonePacket : RtpPacket) (nowMillis : ℤ) :
    (s.forward clonePacket nowMillis).targetLayerRid = s.targetLayerRid ∧
      (s.forward clonePacket nowMillis).currentLayerRid = s.currentLayerRid := by
  rw [forward]
  split
  · exact ⟨rfl,rfl⟩
  · rename_i track _
    simp only [SubscribeStreamTrack.sendRtpPacket,setTrack]
    have h := onlySends_send s nowMillis track.configuration.extensionCapability
      (clonePacket.setSequenceNumber (track.baseRtpSeq+clonePacket.sequenceNumber))
    rw [h]
    exact ⟨rfl,rfl⟩

/-- Forwarding changes one track, and there neither the base nor the configuration. -/
theorem forward_track {s : SubscribeStream} {clonePacket : RtpPacket} {t : SubscribeStreamTrack}
    (ht : s.ssrcTrackMap clonePacket.ssrc = some t) (nowMillis : ℤ) :
    ∃ t', (s.forward clonePacket nowMillis).ssrcTrackMap =
        (s.setTrack clonePacket.ssrc t').ssrcTrackMap ∧
      t'.configuration = t.configuration ∧ t'.baseRtpSeq = t.baseRtpSeq ∧
      t'.maxRtpSeq = t.newMaxRtpSeq (t.baseRtpSeq+clonePacket.sequenceNumber) ∧
      t'.firstPacket = false := by
  rw [forward,ht]
  simp only [SubscribeStreamTrack.sendRtpPacket,setTrack]
  have h := onlySends_send s nowMillis t.configuration.extensionCapability
    (clonePacket.setSequenceNumber (t.baseRtpSeq+clonePacket.sequenceNumber))
  rw [h]
  exact ⟨_,rfl,rfl,rfl,rfl,rfl⟩

end Ylrtc.Subscribe
