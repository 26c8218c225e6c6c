import Ylrtc.Rtcp.Compound
import Ylrtc.Rtcp.Serialize
import Ylrtc.Transport.SubscribeStream

/-!
# RTCP to a subscribe stream

`SubscribeStream::OnRtcpPacketReceive` dispatches the packets of a compound. A receiver
report finds its track or is left alone. A NACK takes the entry of its media SSRC by
`operator[]`, and calls the track that may not be there.
-/
namespace Ylrtc.Subscribe
open CursorParser RtcpCompound RtcpHeader RtcpPackets SubscribeStream

/-- A decrypted datagram, and what its handler reads besides: the clock, the round trip
times that the clock makes of the report blocks, and the publish stream if it exists. -/
structure Datagram where
  data : Region
  nowMillis : ℤ
  rttMillis : ReportBlock → ℤ
  publisher : Option PublishStream

/-- `ssrc_track_map_`, an entry of which may hold a null pointer. -/
abbrev TrackMap := BitVec 32 → Option (Option SubscribeStreamTrack)

/-- `operator[]`: a key that is not there comes in with a null pointer. -/
def TrackMap.entry (m : TrackMap) (ssrc : BitVec 32) : Option SubscribeStreamTrack × TrackMap :=
  match m ssrc with
  | some track => (track,m)
  | none => (none,fun x => if x = ssrc then some none else m x)

/-- A handler is done, or it has called a method through a null pointer of this map. -/
inductive Handled
  | done (s : SubscribeStream)
  | nullCall (tracks : TrackMap)

def Handled.andThen : Handled → (SubscribeStream → Handled) → Handled
  | .done s,next => next s
  | .nullCall tracks,_ => .nullCall tracks

def Handled.returns : Handled → Bool
  | .done _ => true
  | .nullCall _ => false

namespace SubscribeStream

def tracks (s : SubscribeStream) : TrackMap := fun ssrc => (s.ssrcTrackMap ssrc).map some

def onNack (s : SubscribeStream) (d : Datagram) (p : NackPacket) : Handled :=
  let entry := s.tracks.entry p.mediaSsrc
  match entry.1 with
  | none => .nullCall entry.2
  | some _ => .done (s.receiveNack p.mediaSsrc p.packetLostSequenceNumbers d.nowMillis)

/-- A block without the time of a sender report says nothing about the round trip. -/
def onReportBlock (d : Datagram) (s : SubscribeStream) (block : ReportBlock) : SubscribeStream :=
  if block.lastSr = 0 then s
  else s.receiveReceiverReport block.sourceSsrc (d.rttMillis block) d.nowMillis

def onPacket (s : SubscribeStream) (d : Datagram) : RtcpPacket → Handled
  | .nack p => s.onNack d p
  | .transportFeedback fb => .done (step s (.receiveTransportFeedback fb))
  | .receiverReport rr => .done (rr.reportBlocks.foldl (onReportBlock d) s)
  | .base header =>
      if header.packetType = kRtcpTypePsfb ∧ header.countOrFormat = kPli then
        .done (s.requestFrame d.publisher s.currentLayerRid)
      else .done s
  | .senderReport _ => .done s
  | .xr _ => .done s

/-- The loop over the packets. -/
def onPackets (d : Datagram) : SubscribeStream → List ParsedPacket → Handled
  | s,[] => .done s
  | s,p::ps => (s.onPacket d p.packet).andThen fun s => onPackets d s ps

def onRtcpPacketReceive (s : SubscribeStream) (d : Datagram) : Handled :=
  let compound := parse d.data
  if compound.1 then onPackets d s compound.2 else .done s

/-- One datagram after another. -/
def receiveAll : SubscribeStream → List Datagram → Handled
  | s,[] => .done s
  | s,d::ds => (s.onRtcpPacketReceive d).andThen fun s => receiveAll s ds

/-! ### Keys -/

def SameKeys (s s' : SubscribeStream) : Prop :=
  ∀ ssrc, (s'.ssrcTrackMap ssrc).isSome = (s.ssrcTrackMap ssrc).isSome

theorem SameKeys.refl (s : SubscribeStream) : SameKeys s s := fun _ => rfl

theorem SameKeys.trans {s s' s'' : SubscribeStream} (h : SameKeys s s') (h' : SameKeys s' s'') :
    SameKeys s s'' := fun ssrc => (h' ssrc).trans (h ssrc)

theorem OnlySends.sameKeys {s s' : SubscribeStream} (h : OnlySends s s') : SameKeys s s' := by
  intro ssrc
  rw [h]

/-- A track takes the place of a track. -/
theorem sameKeys_setTrack {s : SubscribeStream} {ssrc : BitVec 32} {track : SubscribeStreamTrack}
    (hfound : s.ssrcTrackMap ssrc = some track) (t : SubscribeStreamTrack) :
    SameKeys s (s.setTrack ssrc t) := by
  intro x
  by_cases hx : x = ssrc
  · rw [setTrack,hx,hfound]
    simp only [if_true,Option.isSome_some]
  · simp only [setTrack,if_neg hx]

theorem sameKeys_receiveNack (s : SubscribeStream) (mediaSsrc : BitVec 32)
    (lost : List (BitVec 16)) (nowMillis : ℤ) :
    SameKeys s (s.receiveNack mediaSsrc lost nowMillis) := by
  rw [SubscribeStream.receiveNack]
  cases hfound : s.ssrcTrackMap mediaSsrc with
  | none => exact .refl s
  | some track =>
      simp only [SubscribeStreamTrack.receiveNack]
      split
      · exact sameKeys_setTrack hfound _
      · have hsends := (foldl_resend_frame track s nowMillis
          track.configuration.extensionCapability lost).1
        have hmap := congrArg (fun s => s.ssrcTrackMap mediaSsrc) hsends
        exact (OnlySends.sameKeys hsends).trans (sameKeys_setTrack (hmap.trans hfound) _)

theorem sameKeys_onReportBlock (d : Datagram) (s : SubscribeStream) (block : ReportBlock) :
    SameKeys s (onReportBlock d s block) := by
  rw [onReportBlock]
  split
  · exact .refl s
  · rw [SubscribeStream.receiveReceiverReport]
    cases hfound : s.ssrcTrackMap block.sourceSsrc with
    | none => exact .refl s
    | some track => exact sameKeys_setTrack hfound _

theorem sameKeys_onReportBlocks (d : Datagram) (blocks : List ReportBlock) (s : SubscribeStream) :
    SameKeys s (blocks.foldl (onReportBlock d) s) := by
  induction blocks generalizing s with
  | nil => exact .refl s
  | cons block blocks ih => exact (sameKeys_onReportBlock d s block).trans (ih _)

theorem sameKeys_requestFrame (s : SubscribeStream) (publisher : Option PublishStream)
    (rid : BitVec 32) : SameKeys s (s.requestFrame publisher rid) := by
  rw [requestFrame_eq]
  exact .refl s

/-! ### Safety -/

/-- The handler comes to its end, and the map has the keys that it had. -/
def Safe (s : SubscribeStream) (r : Handled) : Prop := ∃ s', r = .done s' ∧ SameKeys s s'

/-- Each NACK names a track. -/
def Names (s : SubscribeStream) (packet : RtcpPacket) : Prop :=
  ∀ p, packet = .nack p → (s.ssrcTrackMap p.mediaSsrc).isSome

theorem Names.congr {s s' : SubscribeStream} (h : SameKeys s s') (packet : RtcpPacket) :
    s'.Names packet ↔ s.Names packet := by
  simp only [Names,h _]

/-- A handler is safe if a condition holds, and ends in a null pointer if it does not. -/
inductive Settles (s : SubscribeStream) (Q : Prop) : Handled → Prop
  | done {s' : SubscribeStream} (holds : Q) (keys : SameKeys s s') : Settles s Q (.done s')
  | nullCall (fails : ¬Q) (tracks : TrackMap) : Settles s Q (.nullCall tracks)

theorem Settles.safe_iff {s : SubscribeStream} {Q : Prop} {r : Handled} (h : Settles s Q r) :
    s.Safe r ↔ Q := by
  cases h with
  | done holds keys => exact iff_of_true ⟨_,rfl,keys⟩ holds
  | nullCall fails tracks =>
      refine iff_of_false (fun hsafe => ?_) fails
      cases hsafe with
      | intro s' hsafe => cases hsafe.1

/-- Two handlers, the second where the first has left the stream. -/
theorem Settles.andThen {s : SubscribeStream} {Q R : Prop} {r : Handled}
    {next : SubscribeStream → Handled} (h : Settles s Q r)
    (hnext : ∀ s', SameKeys s s' → Settles s' R (next s')) :
    Settles s (Q ∧ R) (r.andThen next) := by
  cases h with
  | nullCall fails tracks => exact .nullCall (fun hboth => fails hboth.1) tracks
  | @done s' holds keys =>
      have hrest := hnext s' keys
      rw [Handled.andThen]
      revert hrest
      generalize next s' = r'
      intro hrest
      cases hrest with
      | done rest keys' => exact .done ⟨holds,rest⟩ (keys.trans keys')
      | nullCall fails tracks => exact .nullCall (fun hboth => fails hboth.2) tracks

theorem onNack_settles (s : SubscribeStream) (d : Datagram) (p : NackPacket) :
    Settles s (s.ssrcTrackMap p.mediaSsrc).isSome (s.onNack d p) := by
  have hentry : (s.tracks.entry p.mediaSsrc).1 = s.ssrcTrackMap p.mediaSsrc := by
    rw [TrackMap.entry,tracks]
    cases s.ssrcTrackMap p.mediaSsrc with
    | none => rfl
    | some track => rfl
  rw [onNack]
  simp only [hentry]
  cases hfound : s.ssrcTrackMap p.mediaSsrc with
  | none => exact .nullCall Bool.false_ne_true _
  | some track => exact .done rfl (sameKeys_receiveNack s _ _ _)

theorem onPacket_settles (s : SubscribeStream) (d : Datagram) (packet : RtcpPacket) :
    Settles s (s.Names packet) (s.onPacket d packet) := by
  have hother : (∀ p, packet ≠ .nack p) → s.Names packet := fun hne p hp => absurd hp (hne p)
  cases packet with
  | nack p =>
      have hnames : s.Names (.nack p) ↔ (s.ssrcTrackMap p.mediaSsrc).isSome :=
        ⟨fun h => h p rfl,fun h q hq => by cases hq; exact h⟩
      rw [hnames]
      exact onNack_settles s d p
  | transportFeedback fb => exact .done (hother nofun) (.refl s)
  | receiverReport rr => exact .done (hother nofun) (sameKeys_onReportBlocks d rr.reportBlocks s)
  | senderReport p => exact .done (hother nofun) (.refl s)
  | xr p => exact .done (hother nofun) (.refl s)
  | base header =>
      rw [onPacket]
      split
      · exact .done (hother nofun) (sameKeys_requestFrame s _ _)
      · exact .done (hother nofun) (.refl s)

theorem onPackets_settles (d : Datagram) (ps : List ParsedPacket) (s : SubscribeStream) :
    Settles s (∀ p ∈ ps, s.Names p.packet) (onPackets d s ps) := by
  induction ps generalizing s with
  | nil => exact .done (fun p hp => absurd hp List.not_mem_nil) (.refl s)
  | cons p ps ih =>
      rw [List.forall_mem_cons]
      refine (onPacket_settles s d p.packet).andThen fun s' hkeys => ?_
      have hrest := ih s'
      simp only [Names.congr hkeys] at hrest
      exact hrest

/-- Every NACK of a datagram that parses names a track. -/
def NamesAll (s : SubscribeStream) (d : Datagram) : Prop :=
  (parse d.data).1 = true → ∀ p ∈ (parse d.data).2, s.Names p.packet

theorem onRtcpPacketReceive_settles (s : SubscribeStream) (d : Datagram) :
    Settles s (s.NamesAll d) (s.onRtcpPacketReceive d) := by
  rw [onRtcpPacketReceive,NamesAll]
  split
  · rename_i hparse
    simp only [hparse,true_imp_iff]
    exact onPackets_settles d _ s
  · exact .done (fun hparse => absurd hparse ‹_›) (.refl s)

theorem receiveAll_settles (ds : List Datagram) (s : SubscribeStream) :
    Settles s (∀ d ∈ ds, s.NamesAll d) (s.receiveAll ds) := by
  induction ds generalizing s with
  | nil => exact .done (fun d hd => absurd hd List.not_mem_nil) (.refl s)
  | cons d ds ih =>
      rw [List.forall_mem_cons]
      refine (onRtcpPacketReceive_settles s d).andThen fun s' hkeys => ?_
      have hrest := ih s'
      simp only [NamesAll,Names.congr hkeys] at hrest
      exact hrest

/-- A run over datagrams is safe exactly when every NACK in them names the SSRC of a track. -/
theorem receiveAll_safe_iff (s : SubscribeStream) (ds : List Datagram) :
    s.Safe (s.receiveAll ds) ↔ ∀ d ∈ ds, s.NamesAll d :=
  (receiveAll_settles ds s).safe_iff

/-- A stream with one track, of SSRC 5. -/
def oneTrack : SubscribeStream :=
  start ⟨fun _ => true,fun _ _ => 0⟩ fun ssrc => if ssrc = 5 then some {} else none

/-- A NACK of number 1 for SSRC 7. -/
def strayNack : Datagram where
  data := .ofList [0x81,205,0,3,0,0,0,5,0,0,0,7,0,1,0,0] (fun _ => 0) (by decide)
  nowMillis := 0
  rttMillis := fun _ => 0
  publisher := none

theorem not_receiveAll_safe :
    ¬∀ (s : SubscribeStream) (ds : List Datagram), s.Safe (s.receiveAll ds) := by
  intro hall
  have hnull : (oneTrack.receiveAll [strayNack]).returns = false := by decide +kernel
  cases hall oneTrack [strayNack] with
  | intro s' h =>
      rw [h.1] at hnull
      exact absurd hnull Bool.noConfusion

end SubscribeStream
end Ylrtc.Subscribe
