import Ylrtc.Transport.SubscribeStream

/-!
# When a subscribe stream begins to send

`connection_established_` and `data_received_` of `transport/subscribe_stream.cpp`: the
stream sends nothing, also not on request, until a keyframe comes after the DTLS handshake.
-/
namespace Ylrtc.Subscribe
open CursorParser HeaderExtension Packet Recorder Run SubscribeStream TransportNumbers

def isKeyFrame : Event → Bool
  | .receivePublishStreamRtpPacket _ rtpPacket _ _ => rtpPacket.1.isKeyFrame
  | _ => false

/-- A keyframe that comes to a connected stream. -/
def Opens (before : List Event) (e : Event) : Prop :=
  .dtlsTransportSetup ∈ before ∧ isKeyFrame e = true

def Opened (es : List Event) : Prop := ∃ before e after, es = before++e::after ∧ Opens before e

theorem not_opened_iff (es : List Event) :
    ¬Opened es ↔ Along (fun before e => ¬Opens before e) es := by
  constructor
  · intro h before e after hes hopens
    exact h ⟨before,e,after,hes,hopens⟩
  · intro h hopened
    obtain ⟨before,e,after,hes,hopens⟩ := hopened
    exact h before e after hes hopens

theorem opened_snoc (es : List Event) (e : Event) : Opened (es++[e]) ↔ Opened es ∨ Opens es e := by
  have h := not_congr (not_opened_iff (es++[e]))
  rw [along_snoc,← not_opened_iff,not_and_or,not_not,not_not,not_not] at h
  exact h

/-! ### What handlers leave alone -/

/-- The stream is as open as it was, and its tracks are configured as they were. -/
structure Stays (s s' : SubscribeStream) : Prop where
  connected : s'.connectionEstablished = s.connectionEstablished
  received : s'.dataReceived = s.dataReceived
  configured : ∀ ssrc, (s'.ssrcTrackMap ssrc).map SubscribeStreamTrack.configuration =
    (s.ssrcTrackMap ssrc).map SubscribeStreamTrack.configuration

theorem Stays.refl (s : SubscribeStream) : Stays s s := ⟨rfl,rfl,fun _ => rfl⟩

theorem Stays.trans {s s' s'' : SubscribeStream} (h : Stays s s') (h' : Stays s' s'') :
    Stays s s'' where
  connected := h'.connected.trans h.connected
  received := h'.received.trans h.received
  configured ssrc := (h'.configured ssrc).trans (h.configured ssrc)

theorem OnlySends.stays {s s' : SubscribeStream} (h : OnlySends s s') : Stays s s' := by
  rw [OnlySends] at h
  rw [h]
  exact ⟨rfl,rfl,fun _ => rfl⟩

theorem stays_setTrack {s : SubscribeStream} {ssrc : BitVec 32} {t t' : SubscribeStreamTrack}
    (ht : s.ssrcTrackMap ssrc = some t) (hconfiguration : t'.configuration = t.configuration) :
    Stays s (s.setTrack ssrc t') := by
  constructor
  · rfl
  · rfl
  · intro x
    simp only [setTrack]
    split
    · rename_i hx
      rw [hx,ht,Option.map_some,Option.map_some,hconfiguration]
    · rfl

theorem stays_requestFrame (s : SubscribeStream) (publisher : Option PublishStream)
    (rid : BitVec 32) : Stays s (s.requestFrame publisher rid) := by
  rw [requestFrame_eq]
  exact ⟨rfl,rfl,fun _ => rfl⟩

theorem stays_switchLayer {s : SubscribeStream} {track : SubscribeStreamTrack} {p : RtpPacket}
    (htrack : s.ssrcTrackMap p.ssrc = some track) (publisher : Option PublishStream)
    (rid : BitVec 32) (behind : List Byte) :
    Stays s (s.switchLayer publisher track (track.clone p behind) rid) := by
  rw [switchLayer]
  split
  · split
    · rename_i reference target _ _
      have hlayer : Stays s { s with
          timestampOffset := timestampOffsetOf reference target track.configuration.clockRate
          currentLayerRid := s.targetLayerRid } := ⟨rfl,rfl,fun _ => rfl⟩
      exact hlayer.trans (stays_setTrack htrack rfl)
    · exact stays_requestFrame s publisher _
  · exact Stays.refl s

theorem stays_forward (s : SubscribeStream) (clonePacket : RtpPacket) (nowMillis : ℤ) :
    Stays s (s.forward clonePacket nowMillis) := by
  rw [forward]
  split
  · exact Stays.refl s
  · rename_i track htrack
    have h := onlySends_send s nowMillis track.configuration.extensionCapability
      (clonePacket.setSequenceNumber (track.baseRtpSeq+clonePacket.sequenceNumber))
    refine h.stays.trans (stays_setTrack (t := track) ?_ rfl)
    rw [OnlySends] at h
    rw [h]
    exact htrack

theorem stays_receiveNack (s : SubscribeStream) (mediaSsrc : BitVec 32)
    (lostPackets : List (BitVec 16)) (nowMillis : ℤ) :
    Stays s (s.receiveNack mediaSsrc lostPackets nowMillis) := by
  rw [receiveNack]
  split
  · exact Stays.refl s
  · rename_i track htrack
    simp only [SubscribeStreamTrack.receiveNack]
    split
    · exact stays_setTrack htrack rfl
    · have h := foldl_resend_frame track s nowMillis track.configuration.extensionCapability
        lostPackets
      refine h.1.stays.trans (stays_setTrack (t := track) ?_ ?_)
      · have hs := h.1
        rw [OnlySends] at hs
        rw [hs]
        exact htrack
      · rw [h.2]

theorem stays_receiveReceiverReport (s : SubscribeStream) (mediaSsrc : BitVec 32)
    (rttMillis nowMillis : ℤ) : Stays s (s.receiveReceiverReport mediaSsrc rttMillis nowMillis) := by
  rw [receiveReceiverReport]
  split
  · exact Stays.refl s
  · rename_i track htrack
    exact stays_setTrack htrack rfl

theorem stays_setSimulcastLayer (s : SubscribeStream) (publisher : Option PublishStream)
    (rid : BitVec 32) : Stays s (s.setSimulcastLayer publisher rid) := by
  unfold setSimulcastLayer
  split
  · exact Stays.refl s
  split
  · exact Stays.refl s
  cases publisher with
  | none => exact Stays.refl s
  | some p =>
      simp only
      split
      · exact Stays.refl s
      · have htarget : Stays s { s with targetLayerRid := p.queryRID rid } :=
          ⟨rfl,rfl,fun _ => rfl⟩
        exact htarget.trans (stays_requestFrame _ _ _)

/-- The copy of a packet that may be forwarded: at most its timestamp is changed. -/
def Forwards (track : SubscribeStreamTrack) (p : RtpPacket) (behind : List Byte) (c : RtpPacket) :
    Prop :=
  c = track.clone p behind ∨ ∃ timestamp, c = (track.clone p behind).setTimestamp timestamp

theorem selectPacket_closed {s : SubscribeStream} (h : s.connectionEstablished = false)
    (publisher : Option PublishStream) (p : RtpPacket) (behind : List Byte) :
    s.selectPacket publisher p behind = (s,none) := by
  rw [selectPacket,h]
  rfl

theorem selectPacket_waiting {s : SubscribeStream} (hconnected : s.connectionEstablished = true)
    (hreceived : s.dataReceived = false) (publisher : Option PublishStream) {p : RtpPacket}
    (hp : p.isKeyFrame = false) (behind : List Byte) :
    s.selectPacket publisher p behind = (s.requestFrame publisher 0,none) := by
  rw [selectPacket,hconnected,hreceived,hp]
  rfl

/-- A stream that is open, or that the packet opens, stays so. -/
theorem selectPacket_open {s : SubscribeStream} (hconnected : s.connectionEstablished = true)
    {p : RtpPacket} (hp : s.dataReceived = true ∨ p.isKeyFrame = true)
    (publisher : Option PublishStream) (behind : List Byte) :
    Stays { s with dataReceived := true } (s.selectPacket publisher p behind).1 ∧
      ∀ c, (s.selectPacket publisher p behind).2 = some c →
        ∃ track, s.ssrcTrackMap p.ssrc = some track ∧ Forwards track p behind c := by
  have hselects := selectPacket_selects s publisher p behind
  generalize s.selectPacket publisher p behind = r at hselects ⊢
  cases hselects with
  | closed hclosed =>
      rw [hconnected] at hclosed
      exact Bool.noConfusion hclosed
  | waiting hreceived hkey =>
      rw [hreceived,hkey] at hp
      cases hp with
      | inl h => exact Bool.noConfusion h
      | inr h => exact Bool.noConfusion h
  | unknown hnone =>
      refine ⟨Stays.refl _,?_⟩
      intro c hc
      cases hc
  | plain htrack hrid =>
      refine ⟨Stays.refl _,?_⟩
      intro c hc
      exact ⟨_,htrack,.inl (Option.some.inj hc).symm⟩
  | dropped htrack hrid hs hother =>
      rw [hs]
      refine ⟨stays_switchLayer (s := { s with dataReceived := true }) htrack publisher _ behind,?_⟩
      intro c hc
      cases hc
  | selected htrack hrid hs hcurrent =>
      refine ⟨?_,?_⟩
      · rw [hs]
        exact stays_switchLayer (s := { s with dataReceived := true }) htrack publisher _ behind
      · intro c hc
        exact ⟨_,htrack,.inr ⟨_,(Option.some.inj hc).symm⟩⟩

/-- In an open stream a packet without a layer is forwarded if its SSRC has a track. -/
theorem selectPacket_plain {s : SubscribeStream} (hconnected : s.connectionEstablished = true)
    {p : RtpPacket} (hp : s.dataReceived = true ∨ p.isKeyFrame = true)
    (publisher : Option PublishStream) {behind : List Byte} {track : SubscribeStreamTrack}
    (htrack : s.ssrcTrackMap p.ssrc = some track)
    (hrid : streamId (track.clone p behind) = none) :
    (s.selectPacket publisher p behind).2 = some (track.clone p behind) := by
  have hselects := selectPacket_selects s publisher p behind
  generalize s.selectPacket publisher p behind = r at hselects ⊢
  cases hselects with
  | closed hclosed =>
      rw [hconnected] at hclosed
      exact Bool.noConfusion hclosed
  | waiting hreceived hkey =>
      rw [hreceived,hkey] at hp
      cases hp with
      | inl h => exact Bool.noConfusion h
      | inr h => exact Bool.noConfusion h
  | unknown hnone =>
      rw [hnone] at htrack
      cases htrack
  | plain htrack' hrid' =>
      rw [htrack'] at htrack
      rw [Option.some.inj htrack]
  | dropped htrack' hrid' hs hother =>
      rw [htrack'] at htrack
      rw [Option.some.inj htrack,hrid] at hrid'
      cases hrid'
  | selected htrack' hrid' hs hcurrent =>
      rw [htrack'] at htrack
      rw [Option.some.inj htrack,hrid] at hrid'
      cases hrid'

/-! ### Runs -/

/-- Nothing was sent, and there is nothing to send again. -/
structure Silent (s : SubscribeStream) : Prop where
  socket : s.socket = []
  transportSeq : s.sequence.transportSeq = 0
  recorders : ∀ ssrc track, s.ssrcTrackMap ssrc = some track →
    track.sendPacketRecorder.packetQueue = []

structure Gate (configurations : BitVec 32 → Option Configuration) (es : List Event)
    (s : SubscribeStream) : Prop where
  connected : s.connectionEstablished = true ↔ .dtlsTransportSetup ∈ es
  received : s.dataReceived = true ↔ Opened es
  configured : ∀ ssrc,
    (s.ssrcTrackMap ssrc).map SubscribeStreamTrack.configuration = configurations ssrc
  silent : ¬Opened es → Silent s

theorem Silent.setTrack {s : SubscribeStream} (h : Silent s) (ssrc : BitVec 32)
    {track : SubscribeStreamTrack} (htrack : track.sendPacketRecorder.packetQueue = []) :
    Silent (s.setTrack ssrc track) where
  socket := h.socket
  transportSeq := h.transportSeq
  recorders x t ht := by
    simp only [SubscribeStream.setTrack] at ht
    split at ht
    · rw [← Option.some.inj ht]
      exact htrack
    · exact h.recorders x t ht

/-- Nothing is found that was not recorded. -/
theorem foldl_resend_silent {t : SubscribeStreamTrack}
    (ht : t.sendPacketRecorder.packetQueue = []) (s : SubscribeStream) (nowMillis : ℤ)
    (observer : SubscribeStreamTrack.Resender SubscribeStream) (lost : List (BitVec 16)) :
    lost.foldl (SubscribeStreamTrack.resend observer nowMillis) (t,s) = (t,s) := by
  induction lost with
  | nil => rfl
  | cons seqNum lost ih =>
      have hquery : t.sendPacketRecorder.query seqNum nowMillis = (none,t.sendPacketRecorder) := by
        rw [SendPacketRecorder.query,ht]
        rfl
      rw [List.foldl_cons,SubscribeStreamTrack.resend]
      simp only [hquery]
      exact ih

theorem Silent.receiveNack {s : SubscribeStream} (h : Silent s) (mediaSsrc : BitVec 32)
    (lostPackets : List (BitVec 16)) (nowMillis : ℤ) :
    Silent (s.receiveNack mediaSsrc lostPackets nowMillis) := by
  rw [SubscribeStream.receiveNack]
  split
  · exact h
  · rename_i track htrack
    have hempty := h.recorders _ track htrack
    simp only [SubscribeStreamTrack.receiveNack]
    split
    · exact h.setTrack _ hempty
    · rw [foldl_resend_silent hempty]
      exact h.setTrack _ hempty

theorem Silent.receiveReceiverReport {s : SubscribeStream} (h : Silent s) (mediaSsrc : BitVec 32)
    (rttMillis nowMillis : ℤ) : Silent (s.receiveReceiverReport mediaSsrc rttMillis nowMillis) := by
  rw [SubscribeStream.receiveReceiverReport]
  split
  · exact h
  · rename_i track htrack
    apply h.setTrack
    simp only [SubscribeStreamTrack.receiveReceiverReport,SendPacketRecorder.setRtt,
      SendPacketRecorder.cullOldPackets,h.recorders _ track htrack,List.length_nil,cull]

theorem Silent.setSimulcastLayer {s : SubscribeStream} (h : Silent s)
    (publisher : Option PublishStream) (rid : BitVec 32) :
    Silent (s.setSimulcastLayer publisher rid) := by
  unfold SubscribeStream.setSimulcastLayer
  split
  · exact h
  split
  · exact h
  cases publisher with
  | none => exact h
  | some p =>
      simp only
      split
      · exact h
      · exact ⟨h.socket,h.transportSeq,h.recorders⟩

theorem not_opens {e : Event} (h : isKeyFrame e = false) (es : List Event) : ¬Opens es e := by
  intro hopens
  rw [hopens.2] at h
  exact Bool.noConfusion h

theorem Gate.of_stays {configurations : BitVec 32 → Option Configuration} {es : List Event}
    {s s' : SubscribeStream} (h : Gate configurations es s) (hstays : Stays s s') {e : Event}
    (hsetup : e ≠ .dtlsTransportSetup) (hopens : ¬Opens es e)
    (hsilent : Silent s → Silent s') : Gate configurations (es++[e]) s' := by
  have hopened : Opened (es++[e]) ↔ Opened es := by
    rw [opened_snoc,or_iff_left hopens]
  constructor
  · rw [hstays.connected,h.connected,List.mem_append,List.mem_singleton,
      or_iff_left (Ne.symm hsetup)]
  · rw [hstays.received,h.received,hopened]
  · intro ssrc
    rw [hstays.configured,h.configured]
  · intro hclosed
    rw [hopened] at hclosed
    exact hsilent (h.silent hclosed)

theorem Gate.receive {configurations : BitVec 32 → Option Configuration} {es : List Event}
    {s : SubscribeStream} (h : Gate configurations es s) (publisher : Option PublishStream)
    (rtpPacket : {p : RtpPacket // p.Valid}) (behind : List Byte) (nowMillis : ℤ) :
    Gate configurations
      (es++[.receivePublishStreamRtpPacket publisher rtpPacket behind nowMillis])
      (s.receivePublishStreamRtpPacket publisher rtpPacket behind nowMillis) := by
  cases hconnected : s.connectionEstablished with
  | false =>
      have hsetup : .dtlsTransportSetup ∉ es := by
        rw [← h.connected,hconnected]
        exact Bool.noConfusion
      rw [receivePublishStreamRtpPacket,selectPacket_closed hconnected]
      exact h.of_stays (Stays.refl s) (by simp) (fun hopens => hsetup hopens.1) id
  | true =>
      by_cases hp : s.dataReceived = true ∨ rtpPacket.1.isKeyFrame = true
      · have hopened : Opened
            (es++[.receivePublishStreamRtpPacket publisher rtpPacket behind nowMillis]) := by
          rw [opened_snoc]
          exact hp.imp h.received.mp fun hkey => ⟨h.connected.mp hconnected,hkey⟩
        have hstays : Stays { s with dataReceived := true }
            (s.receivePublishStreamRtpPacket publisher rtpPacket behind nowMillis) := by
          have hselect := (selectPacket_open hconnected hp publisher behind).1
          rw [receivePublishStreamRtpPacket]
          generalize s.selectPacket publisher rtpPacket behind = r at hselect ⊢
          obtain ⟨s',c⟩ := r
          cases c with
          | none => exact hselect
          | some c => exact hselect.trans (stays_forward s' c nowMillis)
        constructor
        · rw [hstays.connected,h.connected,List.mem_append,List.mem_singleton]
          simp
        · rw [hstays.received]
          simp [hopened]
        · intro ssrc
          rw [hstays.configured]
          exact h.configured ssrc
        · exact absurd hopened
      · rw [not_or] at hp
        rw [receivePublishStreamRtpPacket,selectPacket_waiting hconnected
          (Bool.eq_false_of_not_eq_true hp.1) publisher (Bool.eq_false_of_not_eq_true hp.2)]
        have hkey : isKeyFrame
            (.receivePublishStreamRtpPacket publisher rtpPacket behind nowMillis) = false :=
          Bool.eq_false_of_not_eq_true hp.2
        apply h.of_stays (stays_requestFrame s publisher 0) (by simp) (not_opens hkey es)
        intro hs
        rw [requestFrame_eq]
        exact ⟨hs.socket,hs.transportSeq,hs.recorders⟩

theorem gate_step {configurations : BitVec 32 → Option Configuration} {es : List Event}
    {s : SubscribeStream} (h : Gate configurations es s) (e : Event) :
    Gate configurations (es++[e]) (step s e) := by
  cases e with
  | dtlsTransportSetup =>
      have hopened : Opened (es++[.dtlsTransportSetup]) ↔ Opened es := by
        rw [opened_snoc,or_iff_left (not_opens rfl es)]
      constructor
      · simp [step]
      · rw [hopened]
        exact h.received
      · exact h.configured
      · rw [hopened]
        intro hclosed
        have hs := h.silent hclosed
        exact ⟨hs.socket,hs.transportSeq,hs.recorders⟩
  | receivePublishStreamRtpPacket publisher rtpPacket behind nowMillis =>
      exact h.receive publisher rtpPacket behind nowMillis
  | setSimulcastLayer publisher rid =>
      exact h.of_stays (stays_setSimulcastLayer s publisher rid) (by simp)
        (not_opens rfl es) fun hs => hs.setSimulcastLayer publisher rid
  | receiveNack mediaSsrc lostPackets nowMillis =>
      exact h.of_stays (stays_receiveNack s mediaSsrc lostPackets nowMillis) (by simp)
        (not_opens rfl es) fun hs => hs.receiveNack mediaSsrc lostPackets nowMillis
  | receiveReceiverReport mediaSsrc rttMillis nowMillis =>
      exact h.of_stays (stays_receiveReceiverReport s mediaSsrc rttMillis nowMillis) (by simp)
        (not_opens rfl es) fun hs => hs.receiveReceiverReport mediaSsrc rttMillis nowMillis
  | receiveTransportFeedback feedback =>
      have hstays : Stays s (step s (.receiveTransportFeedback feedback)) := ⟨rfl,rfl,fun _ => rfl⟩
      exact h.of_stays hstays (by simp)
        (not_opens rfl es) fun hs => ⟨hs.socket,hs.transportSeq,hs.recorders⟩

theorem gate_start (environment : Environment)
    (configurations : BitVec 32 → Option Configuration) :
    Gate configurations [] (start environment configurations) where
  connected := by simp [start]
  received := by
    constructor
    · intro h
      exact Bool.noConfusion h
    · intro h
      obtain ⟨before,e,after,hes,_⟩ := h
      simp at hes
  configured ssrc := by
    simp only [start,Option.map_map]
    exact congrFun Option.map_id (configurations ssrc)
  silent _ := by
    constructor
    · rfl
    · rfl
    · intro ssrc track htrack
      simp only [start,Option.map_eq_some_iff] at htrack
      obtain ⟨c,_,rfl⟩ := htrack
      rfl

theorem setup_of_opened {es : List Event} (h : Opened es) : .dtlsTransportSetup ∈ es := by
  obtain ⟨before,e,after,hes,hopens⟩ := h
  rw [hes]
  exact List.mem_append_left _ hopens.1

/-- The tests that a packet meets say whether the run is open with it. -/
theorem Gate.opened_iff {configurations : BitVec 32 → Option Configuration} {es : List Event}
    {s : SubscribeStream} (h : Gate configurations es s) (publisher : Option PublishStream)
    (rtpPacket : {p : RtpPacket // p.Valid}) (behind : List Byte) (nowMillis : ℤ) :
    Opened (es++[.receivePublishStreamRtpPacket publisher rtpPacket behind nowMillis]) ↔
      s.connectionEstablished = true ∧
        (s.dataReceived = true ∨ rtpPacket.1.isKeyFrame = true) := by
  rw [opened_snoc,h.connected,h.received]
  constructor
  · intro hopened
    cases hopened with
    | inl hbefore => exact ⟨setup_of_opened hbefore,.inl hbefore⟩
    | inr hnow => exact ⟨hnow.1,.inr hnow.2⟩
  · intro hopen
    exact hopen.2.imp id fun hkey => ⟨hopen.1,hkey⟩

theorem gate_run (environment : Environment)
    (configurations : BitVec 32 → Option Configuration) (es : List Event) :
    Gate configurations es (run step (start environment configurations) es) := by
  induction es using List.reverseRecOn with
  | nil => exact gate_start environment configurations
  | append_singleton es e ih =>
      rw [run_snoc]
      exact gate_step ih e

/-- In every run, the stream sends no packet before a keyframe has come to it after the DTLS
handshake, and nothing again. From then on, and at that keyframe, whatever is forwarded is a
copy of the packet that has come, under the extension map of its track and with at most another
timestamp. Packets without a layer are then all forwarded whose SSRC has a track. -/
theorem forwards_from_keyframe (environment : Environment)
    (configurations : BitVec 32 → Option Configuration) (es : List Event) :
    let s := run step (start environment configurations) es
    (¬Opened es → s.socket = [] ∧ s.sequence.transportSeq = 0) ∧
    ∀ publisher (p : {p : RtpPacket // p.Valid}) behind nowMillis,
      let opened := Opened (es++[.receivePublishStreamRtpPacket publisher p behind nowMillis])
      let selected := (s.selectPacket publisher p.1 behind).2
      (∀ c, selected = some c → opened ∧ ∃ track, s.ssrcTrackMap p.1.ssrc = some track ∧
        configurations p.1.ssrc = some track.configuration ∧ Forwards track p.1 behind c) ∧
      ∀ track, s.ssrcTrackMap p.1.ssrc = some track → streamId (track.clone p.1 behind) = none →
        (selected = some (track.clone p.1 behind) ↔ opened) := by
  have hgate := gate_run environment configurations es
  generalize run step (start environment configurations) es = s at hgate
  constructor
  · intro hclosed
    have hs := hgate.silent hclosed
    exact ⟨hs.socket,hs.transportSeq⟩
  intro publisher p behind nowMillis
  simp only [hgate.opened_iff publisher p behind nowMillis]
  have hopen : ∀ c, (s.selectPacket publisher p.1 behind).2 = some c →
      s.connectionEstablished = true ∧ (s.dataReceived = true ∨ p.1.isKeyFrame = true) := by
    intro c hc
    cases hconnected : s.connectionEstablished with
    | false =>
        rw [selectPacket_closed hconnected] at hc
        cases hc
    | true =>
        refine ⟨rfl,?_⟩
        by_contra hp
        rw [not_or,Bool.not_eq_true,Bool.not_eq_true] at hp
        rw [selectPacket_waiting hconnected hp.1 publisher hp.2] at hc
        cases hc
  constructor
  · intro c hc
    have hs := hopen c hc
    obtain ⟨track,htrack,hforwards⟩ := (selectPacket_open hs.1 hs.2 publisher behind).2 c hc
    refine ⟨hs,track,htrack,?_,hforwards⟩
    rw [← hgate.configured,htrack]
    rfl
  · intro track htrack hrid
    constructor
    · exact hopen _
    · intro hs
      exact selectPacket_plain hs.1 hs.2 publisher htrack hrid

end Ylrtc.Subscribe
