import Ylrtc.Signaling.SdpNegotiator

/-!
# Local descriptions

`SetLocalDescription` of `transport/publish_stream.cpp` and `transport/subscribe_stream.cpp`,
which configure the tracks of a stream by the media sections of its answer.
-/
namespace Ylrtc.Signaling
open CursorParser Prog

/-- The `Configuration` of a track. -/
structure TrackConfiguration where
  ssrc : BitVec 32
  payloadType : BitVec 8
  rtxSsrc : Option (BitVec 32) := none
  rtxPayloadType : BitVec 8 := 0
  rtxEnabled : Bool := false
  nackEnabled : Bool := false
  codec : Text := []
  audio : Bool := false
  rtcpfbPli : Bool := false
  rtcpfbFir : Bool := false
  clockRate : BitVec 32 := 0
  /-- The calls of `extension_capability.Register`. -/
  extensions : List (BitVec 32 × Text) := []

/-- What the handler of the signaling sees of a stream. A track is known by its place in
`tracks_`. -/
structure StreamData (J : JsonLibrary) where
  sdp : SdpNegotiator J := {}
  connectionEstablished : Bool := false
  hasVideo : Bool := false
  hasAudio : Bool := false
  tracks : List TrackConfiguration := []
  ssrcTrackMap : BitVec 32 → Option ℕ := fun _ => none
  ridConfigurationMap : BitVec 32 → Option TrackConfiguration := fun _ => none
  extensionCapabilities : List (List (BitVec 32 × Text)) := []

variable {J : JsonLibrary} {σ : Type}

/-! ### What both kinds of streams read -/

/-- The first SSRC, if there is one. -/
def readSsrc (mediaSection : J.Json) (config : TrackConfiguration) :
    Prog σ (Exc J) (TrackConfiguration × Bool) := do
  if has mediaSection "ssrcs" then
    let ssrcs ← lib (J.atKey mediaSection "ssrcs")
    if J.isEmpty ssrcs then pure (config,false)
    else
      let ssrc ← lib (do J.toUInt 32 (← J.atKey (← J.index ssrcs 0) "id"))
      pure ({ config with ssrc := ssrc },true)
  else pure (config,false)

/-- The payload of the last mapping for retransmissions. -/
def readRtx : List J.Json → TrackConfiguration → Prog σ (Exc J) TrackConfiguration
  | [],config => pure config
  | rtpmap::rtpmaps,config => do
      if J.isText (← lib (J.atKey rtpmap "codec")) (text "rtx") then
        let payload ← lib (do J.toUInt 8 (← J.atKey rtpmap "payload"))
        readRtx rtpmaps { config with rtxEnabled := true, rtxPayloadType := payload }
      else readRtx rtpmaps config

/-- The mappings; only a publish stream reads the name of the codec. -/
def readRtp (withCodec : Bool) (mediaSection : J.Json) (config : TrackConfiguration) :
    Prog σ (Exc J) TrackConfiguration := do
  if has mediaSection "rtp" then
    let rtpmaps ← lib (J.atKey mediaSection "rtp")
    let config ← if J.isEmpty rtpmaps then pure config else do
      let first ← lib (J.index rtpmaps 0)
      let payload ← lib (do J.toUInt 8 (← J.atKey first "payload"))
      let codec ← if withCodec then lib (textAt first "codec") else pure []
      let rate ← lib (do J.toUInt 32 (← J.atKey first "rate"))
      pure { config with
        payloadType := payload, codec := stringToLower codec, clockRate := rate }
    readRtx (J.elements rtpmaps) config
  else pure config

/-- The FID groups: the SSRC for retransmissions of the SSRC of the track. -/
def readGroups : List J.Json → TrackConfiguration → Prog σ (Exc J) TrackConfiguration
  | [],config => pure config
  | group::groups,config => do
      if J.isText (← lib (J.atKey group "semantics")) (text "FID") then
        let ssrcs ← lib (textAt group "ssrcs")
        match split ssrcs 32 with
        | [primary,rtx] =>
            let primary ← std (stol primary)
            if primary = config.ssrc.toNat then
              let rtx ← std (stol rtx)
              readGroups groups { config with rtxSsrc := some (BitVec.ofInt 32 rtx) }
            else readGroups groups config
        | _ => readGroups groups config
      else readGroups groups config

def readSsrcGroups (mediaSection : J.Json) (config : TrackConfiguration) :
    Prog σ (Exc J) TrackConfiguration := do
  if has mediaSection "ssrcGroups" then
    let groups ← lib (J.atKey mediaSection "ssrcGroups")
    readGroups (J.elements groups) config
  else pure config

def readExtensions : List J.Json → TrackConfiguration → Prog σ (Exc J) TrackConfiguration
  | [],config => pure config
  | extension::extensions,config => do
      let value ← lib (do J.toUInt 32 (← J.atKey extension "value"))
      let uri ← lib (textAt extension "uri")
      readExtensions extensions { config with extensions := config.extensions++[(value,uri)] }

/-! ### Publish streams -/

def readPublishFb : List J.Json → TrackConfiguration → Prog σ (Exc J) TrackConfiguration
  | [],config => pure config
  | fb::fbs,config => do
      if has fb "payload" ∧ has fb "type" then
        if has fb "subtype" then
          let subtype ← lib (J.atKey fb "subtype")
          if J.isText subtype (text "fir") then
            readPublishFb fbs { config with rtcpfbFir := true }
          else if J.isText subtype (text "pli") then
            readPublishFb fbs { config with rtcpfbPli := true }
          else readPublishFb fbs config
        else
          let payload ← lib (J.atKey fb "payload")
          if J.isText payload (decimal config.payloadType.toNat) then
            let type ← lib (J.atKey fb "type")
            readPublishFb fbs { config with
              nackEnabled := config.nackEnabled || J.isText type (text "nack") }
          else readPublishFb fbs config
      else readPublishFb fbs config

/-- The RIDs of `list1` get the configuration as it is by then. -/
def insertRids (config : TrackConfiguration) : List Text → Prog (StreamData J) (Exc J) Unit
  | [] => pure ()
  | rid::rids => do
      let key ← std (stoi rid)
      modify fun s => { s with ridConfigurationMap :=
        match s.ridConfigurationMap (BitVec.ofInt 32 key) with
        | some _ => s.ridConfigurationMap
        | none => Function.update s.ridConfigurationMap (BitVec.ofInt 32 key) (some config) }
      insertRids config rids

/-- A section of the local description of a publish stream, before its track is made: the
configuration, and whether it has an SSRC. `config` is the configuration to start from, with
the SSRC and the payload type not yet set. -/
def configurePublish (config : TrackConfiguration) (mediaSection : J.Json) :
    Prog (StreamData J) (Exc J) (TrackConfiguration × Bool) := do
  let type ← lib (J.atKey mediaSection "type")
  let config := { config with audio := J.isText type (text "audio") }
  if J.isText type (text "audio") then modify fun s => { s with hasAudio := true }
  else if J.isText type (text "video") then modify fun s => { s with hasVideo := true }
  let (config,hasSsrc) ← readSsrc mediaSection config
  let config ← readRtp true mediaSection config
  let config ← readSsrcGroups mediaSection config
  let config ← if has mediaSection "rtcpFb" then do
      let fbs ← lib (J.atKey mediaSection "rtcpFb")
      readPublishFb (J.elements fbs) config
    else pure config
  if has mediaSection "simulcast" then
    let simulcast ← lib (J.atKey mediaSection "simulcast")
    if has simulcast "list1" then
      let rids ← lib (textAt simulcast "list1")
      insertRids config (split rids 59)
  if has mediaSection "ext" then
    let extensions ← lib (J.atKey mediaSection "ext")
    let config ← readExtensions (J.elements extensions) config
    modify fun s => { s with
      extensionCapabilities := s.extensionCapabilities++[config.extensions] }
    pure (config,hasSsrc)
  else pure (config,hasSsrc)

/-- `ssrc_track_map_.insert`, which leaves an entry that is there. -/
def insertSsrc (s : StreamData J) (ssrc : BitVec 32) (track : ℕ) : StreamData J :=
  match s.ssrcTrackMap ssrc with
  | some _ => s
  | none => { s with ssrcTrackMap := Function.update s.ssrcTrackMap ssrc (some track) }

/-- The track of a section. `*config.rtx_ssrc` is not checked. -/
def addPublishTrack (config : TrackConfiguration) :
    Prog (StreamData J) (Fault (Exc J)) Unit := do
  let s ← get
  let track := s.tracks.length
  modify fun s => insertSsrc { s with tracks := s.tracks++[config] } config.ssrc track
  if config.rtxEnabled then
    match config.rtxSsrc with
    | some rtxSsrc => modify fun s => insertSsrc s rtxSsrc track
    | none => abort

def publishLocalSection (memory : TrackConfiguration) (mediaSections : J.Json) (i : ℕ) :
    Prog (StreamData J) (Fault (Exc J)) Unit := do
  let mediaSection ← safe (lib (J.index mediaSections i))
  let (config,hasSsrc) ← safe (configurePublish memory mediaSection)
  if hasSsrc then addPublishTrack config

/-- `SetLocalDescription` of a publish stream. -/
def publishSetLocalDescription (memory : TrackConfiguration) :
    Prog (StreamData J) (Fault (Exc J)) Unit := do
  let s ← get
  let mediaSections ← safe (lib s.sdp.getMediaSections)
  forItems (publishLocalSection memory mediaSections) (List.range (J.size mediaSections))

/-! ### Subscribe streams -/

def readSubscribeFb : List J.Json → TrackConfiguration → Prog σ (Exc J) TrackConfiguration
  | [],config => pure config
  | fb::fbs,config => do
      let payload ← lib (J.atKey fb "payload")
      if J.isText payload (decimal config.payloadType.toNat) then
        let type ← lib (J.atKey fb "type")
        let nack := J.isText type (text "nack") && !has fb "subtype"
        readSubscribeFb fbs { config with nackEnabled := config.nackEnabled || nack }
      else readSubscribeFb fbs config

def subscribeLocalSection (memory : TrackConfiguration) (mediaSections : J.Json) (i : ℕ) :
    Prog (StreamData J) (Exc J) Unit := do
  let mediaSection ← lib (J.index mediaSections i)
  let type ← lib (J.atKey mediaSection "type")
  let config := { memory with audio := J.isText type (text "audio") }
  let (config,_) ← readSsrc mediaSection config
  let config ← readRtp false mediaSection config
  let config ← readSsrcGroups mediaSection config
  let config ← if has mediaSection "rtcpFb" then do
      let fbs ← lib (J.atKey mediaSection "rtcpFb")
      readSubscribeFb (J.elements fbs) config
    else pure config
  let config ← if has mediaSection "ext" then do
      let extensions ← lib (J.atKey mediaSection "ext")
      readExtensions (J.elements extensions) config
    else pure config
  modify fun s => insertSsrc { s with tracks := s.tracks++[config] } config.ssrc s.tracks.length

/-- `SetLocalDescription` of a subscribe stream. -/
def subscribeSetLocalDescription (memory : TrackConfiguration) :
    Prog (StreamData J) (Exc J) Unit := do
  let s ← get
  let mediaSections ← lib s.sdp.getMediaSections
  forItems (subscribeLocalSection memory mediaSections) (List.range (J.size mediaSections))

end Ylrtc.Signaling
