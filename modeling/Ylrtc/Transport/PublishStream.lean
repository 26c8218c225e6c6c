import Ylrtc.Lib.Run
import Ylrtc.Rtp.Packet

/-!
# Publish streams

`PublishStream` of `transport/publish_stream.cpp`: the maps from SSRCs and stream ids to
tracks, and how they are learned from the packets of a simulcast sender. A track is known
by its place in `tracks_`, and what a delivered packet does to it is left out.
-/
namespace Ylrtc.Publish
open ByteBuffer CursorParser HeaderExtension Packet

/-- `PublishStreamTrack::Configuration`, as far as the maps depend on it. -/
structure Configuration where
  ssrc : BitVec 32
  payloadType : Byte
  rtxSsrc : Option (BitVec 32) := none
  rtxPayloadType : Byte := 0
  rtxEnabled : Bool := false
  rid : BitVec 32 := 0
  extensionCapability : RtpHeaderExtensionCapability := {}

/-- How the handler of a packet ends without returning: `at` throws, or the empty
`rtx_ssrc` is dereferenced, which is undefined. -/
inductive Fault where
  | outOfRange | emptyOptional
  deriving DecidableEq

/-- A map on 32-bit keys. -/
abbrev Keyed (α : Type) := BitVec 32 → Option α

/-- `insert` leaves an entry that is there. -/
def Keyed.insert {α : Type} (m : Keyed α) (key : BitVec 32) (value : α) : Keyed α :=
  fun k => if k = key ∧ m key = none then some value else m k

structure PublishStream where
  tracks : List Configuration := []
  ssrcTrackMap : Keyed ℕ := fun _ => none
  ridTrackMap : Keyed ℕ := fun _ => none
  ridConfigurationMap : Keyed Configuration
  extensionCapabilities : List RtpHeaderExtensionCapability

/-- `SetRtxSSRC`. -/
def Configuration.setRtxSsrc (config : Configuration) (ssrc : BitVec 32) : Configuration :=
  if config.rtxEnabled then { config with rtxSsrc := some ssrc } else config

/-- The bytes of a datagram, and what memory holds behind the packet that is made of them. -/
structure Datagram where
  data : List Byte
  behind : List Byte := []

def Datagram.create (datagram : Datagram) : Option RtpPacket :=
  RtpPacket.create datagram.data datagram.behind

namespace PublishStream

/-- The RID under one capability: the stream id, or else the repaired one. -/
def readRid (p : RtpPacket) (capability : RtpHeaderExtensionCapability) : Option (BitVec 32) :=
  let p := p.setExtensionCapability capability
  (p.getExtensionValue rtpStreamIdExtension).orElse fun _ =>
    p.getExtensionValue repairedRtpStreamIdExtension

/-- A primary packet makes a track of the configuration of its RID. -/
def addTrack (s : PublishStream) (ssrc rid : BitVec 32) (capability : RtpHeaderExtensionCapability)
    (config : Configuration) : PublishStream :=
  let config := { config with ssrc := ssrc, rid := rid, extensionCapability := capability }
  { s with
    tracks := s.tracks ++ [config]
    ssrcTrackMap := s.ssrcTrackMap.insert ssrc s.tracks.length
    ridTrackMap := s.ridTrackMap.insert rid s.tracks.length
    ridConfigurationMap := fun r => if r = rid then some config else s.ridConfigurationMap r }

/-- The loop over the tracks for an RTX packet. The map entry is made from the SSRC that
the track has, and only then the track gets the one of the packet. -/
def bindRtx (ssrc rid : BitVec 32) (s : PublishStream) (i : ℕ) : Except Fault PublishStream :=
  match s.tracks[i]? with
  | none => .ok s
  | some config =>
      if config.rid = rid then
        match config.rtxSsrc with
        | none => .error .emptyOptional
        | some rtxSsrc => .ok { s with
            ssrcTrackMap := s.ssrcTrackMap.insert rtxSsrc i
            tracks := s.tracks.set i (config.setRtxSsrc ssrc) }
      else .ok s

/-- One round of the loop over the capabilities. -/
def learn (p : RtpPacket) (s : PublishStream) (capability : RtpHeaderExtensionCapability) :
    Except Fault PublishStream :=
  match readRid p capability with
  | none => .ok s
  | some rid =>
      match s.ridConfigurationMap rid with
      | none => .error .outOfRange
      | some config =>
          if p.payloadType = config.payloadType then .ok (s.addTrack p.ssrc rid capability config)
          else if p.payloadType = config.rtxPayloadType then
            (List.range s.tracks.length).foldlM (bindRtx p.ssrc rid) s
          else .ok s

/-- `OnRtpPacketReceive`: the track whose `ReceiveRtpPacket` is called, if any. -/
def onRtpPacketReceive (s : PublishStream) (datagram : Datagram) :
    Except Fault (Option ℕ × PublishStream) :=
  match datagram.create with
  | none => .ok (none,s)
  | some p => do
      let s ← if (s.ssrcTrackMap p.ssrc).isSome then .ok s
        else s.extensionCapabilities.foldlM (learn p) s
      return (s.ssrcTrackMap p.ssrc,s)

end PublishStream
open PublishStream

/-! ### What one capability makes of a packet -/

/-- What a packet is under a capability. -/
inductive Reading where
  | nothing | unknown
  | primary (rid : BitVec 32)
  | rtx (rid : BitVec 32)
  deriving DecidableEq

def Reading.primaryRid : Reading → Option (BitVec 32)
  | .primary rid => some rid
  | _ => none

def PublishStream.reading (s : PublishStream) (p : RtpPacket)
    (capability : RtpHeaderExtensionCapability) : Reading :=
  match readRid p capability with
  | none => .nothing
  | some rid =>
      match s.ridConfigurationMap rid with
      | none => .unknown
      | some config =>
          if p.payloadType = config.payloadType then .primary rid
          else if p.payloadType = config.rtxPayloadType then .rtx rid
          else .nothing

/-- The packet under all capabilities, in order. -/
def PublishStream.readings (s : PublishStream) (p : RtpPacket) : List Reading :=
  s.extensionCapabilities.map (s.reading p)

/-- The RIDs of the tracks that a packet of a new SSRC makes. -/
def PublishStream.primaryRids (s : PublishStream) (p : RtpPacket) : List (BitVec 32) :=
  (s.readings p).filterMap Reading.primaryRid

/-- The RIDs that a packet carries as repaired stream ids, with the RTX payload type of the
RID's configuration. -/
def PublishStream.rtxRids (s : PublishStream) (p : RtpPacket) : List (BitVec 32) :=
  (s.extensionCapabilities.filterMap fun capability =>
    (p.setExtensionCapability capability).getExtensionValue repairedRtpStreamIdExtension).filter
    fun rid => (s.ridConfigurationMap rid).any fun config => p.payloadType = config.rtxPayloadType

def PublishStream.trackRids (s : PublishStream) : List (BitVec 32) := s.tracks.map Configuration.rid

/-- No configuration has an RTX SSRC. -/
structure PublishStream.NoRtx (s : PublishStream) : Prop where
  tracks : ∀ config ∈ s.tracks, config.rtxSsrc = none
  configurations : ∀ rid config, s.ridConfigurationMap rid = some config → config.rtxSsrc = none

section Learn
variable {s s' : PublishStream} {p : RtpPacket} {capability : RtpHeaderExtensionCapability}

/-- The loop over the tracks does nothing, or follows the empty optional of the first track
of the RID. -/
theorem bindRtx_foldlM (h : s.NoRtx) (ssrc rid : BitVec 32) (is : List ℕ) :
    is.foldlM (bindRtx ssrc rid) s =
      if ∃ i ∈ is, (s.tracks[i]?).map Configuration.rid = some rid then .error .emptyOptional
      else .ok s := by
  induction is with
  | nil => rw [List.foldlM_nil,if_neg (by simp)]; rfl
  | cons i is ih =>
      rw [List.foldlM_cons]
      by_cases hi : (s.tracks[i]?).map Configuration.rid = some rid
      · rw [if_pos ⟨i,List.mem_cons_self,hi⟩]
        rw [Option.map_eq_some_iff] at hi
        cases hi with
        | intro config hconfig =>
            rw [bindRtx,hconfig.1]
            simp only [hconfig.2,if_true,h.tracks config (List.mem_of_getElem? hconfig.1)]
            rfl
      · have hround : bindRtx ssrc rid s i = .ok s := by
          rw [bindRtx]
          cases hconfig : s.tracks[i]? with
          | none => rfl
          | some config =>
              simp only
              rw [if_neg]
              intro heq
              rw [hconfig,Option.map_some,heq] at hi
              exact hi rfl
        rw [hround]
        refine ih.trans (if_congr ?_ rfl rfl)
        simp only [List.exists_mem_cons_iff,hi,false_or]

theorem exists_track_iff (s : PublishStream) (rid : BitVec 32) :
    (∃ i ∈ List.range s.tracks.length, (s.tracks[i]?).map Configuration.rid = some rid) ↔
      rid ∈ s.trackRids := by
  rw [PublishStream.trackRids,List.mem_iff_getElem?]
  constructor
  · intro h
    cases h with
    | intro i hi => exact ⟨i,by rw [List.getElem?_map]; exact hi.2⟩
  · intro h
    cases h with
    | intro i hi =>
        rw [List.getElem?_map] at hi
        refine ⟨i,List.mem_range.mpr ?_,hi⟩
        rw [Option.map_eq_some_iff] at hi
        cases hi with
        | intro config hconfig => exact (List.getElem?_eq_some_iff.mp hconfig.1).1

/-- One round, by what the packet is under the capability. -/
theorem learn_eq (h : s.NoRtx) : learn p s capability =
    match s.reading p capability with
    | .nothing => .ok s
    | .unknown => .error .outOfRange
    | .primary rid =>
        match s.ridConfigurationMap rid with
        | none => .error .outOfRange
        | some config => .ok (s.addTrack p.ssrc rid capability config)
    | .rtx rid => if rid ∈ s.trackRids then .error .emptyOptional else .ok s := by
  rw [learn,PublishStream.reading]
  cases readRid p capability with
  | none => rfl
  | some rid =>
      simp only
      cases hconfig : s.ridConfigurationMap rid with
      | none => rfl
      | some config =>
          simp only
          by_cases hprimary : p.payloadType = config.payloadType
          · simp only [hprimary,if_true,hconfig]
          · simp only [if_neg hprimary]
            by_cases hrtx : p.payloadType = config.rtxPayloadType
            · simp only [hrtx,if_true]
              rw [bindRtx_foldlM h]
              exact if_congr (exists_track_iff s rid) rfl rfl
            · simp only [if_neg hrtx]

/-- A track that is added keeps what packets are read as. -/
theorem reading_addTrack {ssrc rid : BitVec 32} {config : Configuration}
    {c : RtpHeaderExtensionCapability} (hconfig : s.ridConfigurationMap rid = some config) :
    (s.addTrack ssrc rid c config).reading p = s.reading p := by
  funext capability
  rw [PublishStream.reading,PublishStream.reading]
  cases readRid p capability with
  | none => rfl
  | some r =>
      simp only [addTrack]
      by_cases hr : r = rid
      · simp only [hr,if_true,hconfig]
      · simp only [if_neg hr]

theorem PublishStream.NoRtx.addTrack (h : s.NoRtx) (ssrc : BitVec 32) {rid : BitVec 32}
    {config : Configuration} (c : RtpHeaderExtensionCapability) (hconfig : s.ridConfigurationMap rid = some config) :
    (s.addTrack ssrc rid c config).NoRtx := by
  have hnone := h.configurations rid config hconfig
  constructor
  · intro track htrack
    cases List.mem_append.mp htrack with
    | inl hold => exact h.tracks track hold
    | inr hnew => rw [List.mem_singleton.mp hnew]; exact hnone
  · intro r track htrack
    simp only [PublishStream.addTrack] at htrack
    split at htrack
    · rw [Option.some.injEq] at htrack
      rw [← htrack]
      exact hnone
    · exact h.configurations r track htrack

end Learn
end Ylrtc.Publish
