import Ylrtc.Signaling.Json

/-!
# The SDP negotiator

`SdpNegotiator` of `transport/sdp_negotiator.cpp`: the offers of publishers and subscribers,
and the answers, which are edited in place. An exception in the middle of an answer leaves it
half edited. Where the predicate of `std::remove_if` throws, the source leaves behind what it has
moved so far, and the model the array as it was before.
-/
namespace Ylrtc.Signaling
open CursorParser Prog

/-- `DtlsTransport::SetupSelector`. -/
def setupSelector (setup : Text) : Option Text :=
  if setup = text "passive" then some (text "active")
  else if setup = text "actpass" then some (text "active")
  else if setup = text "active" then some (text "passive")
  else none

structure SdpNegotiator (J : JsonLibrary) where
  localCandidate : J.Json := J.null
  publishOfferSdp : J.Json := J.null
  publishAnwserSdp : J.Json := J.null
  subscribeOfferSdp : J.Json := J.null
  subscribeAnwserSdp : J.Json := J.null
  remoteDtlsSetup : Text := []
  remoteIceUfrag : Text := []
  remoteIcePwd : Text := []
  remoteFingerprintType : Text := []
  remoteFingerprintHash : Text := []
  localDtlsSetup : Text := text "active"
  localIceUfrag : Text := []
  localIcePassword : Text := []
  localFingerprintType : Text := []
  localFingerprintHash : Text := []
  mediaSectionSsrcsMap : Text → Option J.Json := fun _ => none
  mediaSectionSsrcGroupsMap : Text → Option J.Json := fun _ => none
  mediaSectionRtpmapsMap : Text → Option (List J.Json) := fun _ => none

variable {J : JsonLibrary}

/-- `std::string s = j.at(key)`. -/
def textAt (j : J.Json) (key : String) : Except J.Error Text := do
  J.toText (← J.atKey j key)

def has (j : J.Json) (key : String) : Bool := (J.find j key).isSome

namespace SdpNegotiator

/-! ### Offers -/

/-- The fingerprint of a section or of the whole description. -/
def setRemoteFingerprint (j : J.Json) : Prog (SdpNegotiator J) (Exc J) Unit := do
  let fingerprint ← lib (J.atKey j "fingerprint")
  let type ← lib (textAt fingerprint "type")
  modify fun n => { n with remoteFingerprintType := type }
  let hash ← lib (textAt fingerprint "hash")
  modify fun n => { n with remoteFingerprintHash := hash }

/-- What both kinds of offers say of the transport in a media section. -/
def setRemoteTransport (sdp mediaSection : J.Json) : Prog (SdpNegotiator J) (Exc J) Bool := do
  if has mediaSection "setup" then
    let setup ← lib (textAt mediaSection "setup")
    modify fun n => { n with remoteDtlsSetup := setup }
    if has mediaSection "iceUfrag" then
      let ufrag ← lib (textAt mediaSection "iceUfrag")
      modify fun n => { n with remoteIceUfrag := ufrag }
      if has mediaSection "icePwd" then
        let pwd ← lib (textAt mediaSection "icePwd")
        modify fun n => { n with remoteIcePwd := pwd }
        if has mediaSection "fingerprint" then
          setRemoteFingerprint mediaSection
          pure true
        else if has sdp "fingerprint" then
          setRemoteFingerprint sdp
          pure true
        else pure false
      else pure false
    else pure false
  else pure false

/-- A media section of the offer of a publisher. -/
def publishOfferSection (sdp mediaSection : J.Json) : Prog (SdpNegotiator J) (Exc J) Bool := do
  if has mediaSection "direction" then
    let direction ← lib (J.atKey mediaSection "direction")
    if J.isText direction (text "sendonly") then
      let type ← lib (textAt mediaSection "type")
      if has mediaSection "ssrcs" then
        let ssrcs ← lib (J.atKey mediaSection "ssrcs")
        modify fun n => { n with
          mediaSectionSsrcsMap := Function.update n.mediaSectionSsrcsMap type (some ssrcs) }
      if has mediaSection "ssrcGroups" then
        let groups ← lib (J.atKey mediaSection "ssrcGroups")
        modify fun n => { n with
          mediaSectionSsrcGroupsMap :=
            Function.update n.mediaSectionSsrcGroupsMap type (some groups) }
      setRemoteTransport sdp mediaSection
    else pure false
  else pure false

/-- The `BUNDLE` groups of an offer. -/
def countBundles : List J.Json → Except J.Error ℕ
  | [] => .ok 0
  | group::groups => do
      let type ← J.atKey group "type"
      let rest ← countBundles groups
      pure (if J.isText type (text "BUNDLE") then rest+1 else rest)

/-- A loop over the media sections of an offer by their number. -/
def offerSections (media : J.Json) (body : J.Json → Prog (SdpNegotiator J) (Exc J) Bool) :
    Prog (SdpNegotiator J) (Exc J) Bool :=
  whileItems (fun i => do
    let mediaSection ← lib (J.index media i)
    body mediaSection) (List.range (J.size media))

/-- An offer has media sections. -/
def hasMedia (sdp : J.Json) : Except J.Error Bool :=
  if has sdp "media" then do
    let media ← J.atKey sdp "media"
    pure (!J.isEmpty media)
  else pure false

/-- `SetPublishOffer`, which catches everything. -/
def setPublishOffer (offer : Text) : Prog (SdpNegotiator J) (Exc J) Bool :=
  recover false do
    let sdp ← lib (J.sdpParse offer)
    if ← lib (hasMedia sdp) then
      if has sdp "groups" then
        let groups ← lib (J.atKey sdp "groups")
        let count ← lib (countBundles (J.elements groups))
        if count = 1 then
          let media ← lib (J.atKey sdp "media")
          if ← offerSections media (publishOfferSection sdp) then
            modify fun n => { n with publishOfferSdp := sdp }
            pure true
          else pure false
        else pure false
      else pure false
    else pure false

/-- `SetSubscribeOffer`. -/
def setSubscribeOffer (offer : Text) : Prog (SdpNegotiator J) (Exc J) Bool := do
  let sdp ← lib (J.sdpParse offer)
  modify fun n => { n with subscribeOfferSdp := sdp }
  if ← lib (hasMedia sdp) then
    let media ← lib (J.atKey sdp "media")
    offerSections media (setRemoteTransport sdp)
  else pure false

end SdpNegotiator

/-! ### Editing a media section -/

/-- A media section of an answer, while it is edited. -/
structure Editing (J : JsonLibrary) where
  negotiator : SdpNegotiator J
  mediaSection : J.Json

namespace Editing

/-- A call of the library on the section, which reads it. -/
def read {α : Type} (f : J.Json → Except J.Error α) : Prog (Editing J) (Exc J) α := do
  let s ← get
  lib (f s.mediaSection)

/-- A call of the library on the section, which changes it. -/
def edit (f : J.Json → Except J.Error J.Json) : Prog (Editing J) (Exc J) Unit := do
  let s ← get
  let mediaSection ← lib (f s.mediaSection)
  Prog.set { s with mediaSection := mediaSection }

def erase (key : String) : Prog (Editing J) (Exc J) Unit := edit fun m => J.erase m key

def assign (key : String) (value : J.Json) : Prog (Editing J) (Exc J) Unit :=
  edit fun m => J.set m key value

/-- A member of the section is changed through a reference to it. -/
def editMember (key : String) (f : J.Json → Except J.Error J.Json) :
    Prog (Editing J) (Exc J) Unit :=
  edit fun m => do
    let member ← f (← J.atKey m key)
    pure (J.putMember m key member)

/-- `media_section[key]`, which is there afterwards. -/
def subscript (key : String) : Prog (Editing J) (Exc J) J.Json := do
  edit fun m => if has m key then pure m else J.set m key J.null
  read fun m => J.atKey m key

def hasKey (key : String) : Prog (Editing J) (Exc J) Bool := read fun m => pure (has m key)

/-- `candidates` gets the local candidate alone. -/
def assignCandidates : Prog (Editing J) (Exc J) Unit := do
  let s ← get
  assign "candidates" (J.array [])
  editMember "candidates" fun _ => pure (J.array [s.negotiator.localCandidate])

/-- The `direction` of each RID that has one. -/
def assignRids (direction : Text) : Prog (Editing J) (Exc J) Unit := do
  if ← hasKey "rids" then
    editMember "rids" fun rids => pure (J.putElements rids ((J.elements rids).map fun rid =>
      if has rid "direction" then J.putMember rid "direction" (J.ofText direction) else rid))

/-- The directions of `simulcast`. -/
def assignSimulcast (direction : Text) : Prog (Editing J) (Exc J) Unit := do
  if ← hasKey "simulcast" then
    editMember "simulcast" fun simulcast => do
      let simulcast := if has simulcast "dir1" then
        J.putMember simulcast "dir1" (J.ofText direction) else simulcast
      pure (if has simulcast "dir2" then
        J.putMember simulcast "dir2" (J.ofText direction) else simulcast)

/-- `SetupSelector` with its `DCHECK`, and the setup of the section. -/
def assignSetup (remoteDtlsSetup : Text) : Prog (Editing J) (Fault (Exc J)) Unit :=
  match setupSelector remoteDtlsSetup with
  | some setup => safe do
      modify fun s => { s with negotiator := { s.negotiator with localDtlsSetup := setup } }
      assign "setup" (J.ofText setup)
  | none => abort

/-- A section is edited around its setup. -/
def editSection (prepare : Prog (Editing J) (Exc J) Unit) (remoteDtlsSetup : Text)
    (finish : Prog (Editing J) (Exc J) Bool) : Prog (Editing J) (Fault (Exc J)) Bool := do
  safe prepare
  assignSetup remoteDtlsSetup
  safe finish

/-! ### The answer to a publisher -/

/-- What is done to a section before the setup. -/
def preparePublish : Prog (Editing J) (Exc J) Unit := do
  if J.isInt (← read fun m => J.atKey m "port") 0 then
    assign "port" (J.ofInt 9)
  erase "ssrcs"
  erase "ssrcGroups"
  erase "iceOptions"
  erase "candidates"
  erase "extmapAllowMixed"
  assignCandidates
  assign "direction" (J.ofText (text "recvonly"))
  let s ← get
  assign "icePwd" (J.ofText s.negotiator.localIcePassword)
  assign "iceUfrag" (J.ofText s.negotiator.localIceUfrag)
  assign "icelite" (J.ofText (text "ice-lite"))
  let _ ← subscript "fingerprint"
  editMember "fingerprint" fun f => J.set f "type" (J.ofText s.negotiator.localFingerprintType)
  let _ ← subscript "fingerprint"
  editMember "fingerprint" fun f => J.set f "hash" (J.ofText s.negotiator.localFingerprintHash)

/-- `media_section_rtpmaps_map_[type].push_back(item)`. -/
def pushRtpmap (type : Text) (item : J.Json) : Prog (Editing J) (Exc J) Unit :=
  modify fun s => { s with negotiator := { s.negotiator with
    mediaSectionRtpmapsMap := Function.update s.negotiator.mediaSectionRtpmapsMap type
      (some ((s.negotiator.mediaSectionRtpmapsMap type).getD []++[item])) } }

/-- The payload of the first mapping to the codec, -1 if there is none. -/
def selectCodec (type codec : Text) : List J.Json → Prog (Editing J) (Exc J) ℤ
  | [] => pure (-1)
  | item::items => do
      if J.isText (← lib (J.atKey item "codec")) codec then
        let payload ← lib (do J.toUInt 32 (← J.atKey item "payload"))
        pushRtpmap type item
        pure payload.toInt
      else selectCodec type codec items

/-- The predicate of `fmtp`: what is kept, and the payload of the last mapping that is for
retransmissions of the codec. -/
def keepFmtp (codecPayload : ℤ) :
    List J.Json → ℤ → Except J.Error (List J.Json × ℤ)
  | [],rtxPayload => pure ([],rtxPayload)
  | item::items,rtxPayload => do
      if J.isText (← J.atKey item "config") (text "apt="++decimal codecPayload) then
        let payload ← J.toUInt 32 (← J.atKey item "payload")
        let rest ← keepFmtp codecPayload items payload.toInt
        pure (item::rest.1,rest.2)
      else
        let payload ← J.atKey item "payload"
        let rest ← keepFmtp codecPayload items rtxPayload
        pure (if J.isInt payload codecPayload then item::rest.1 else rest.1,rest.2)

/-- `usedtx=1` at the end of each configuration of the codec. -/
def enableDtx (codecPayload : ℤ) : List J.Json → List J.Json → Prog (Editing J) (Exc J) Unit
  | _,[] => pure ()
  | done,item::items => do
      let item ← lib do
        if J.isInt (← J.atKey item "payload") codecPayload then
          let config ← textAt item "config"
          pure (J.putMember item "config" (J.ofText (config++text ";usedtx=1")))
        else pure item
      editMember "fmtp" fun fmtp => pure (J.putElements fmtp (done++item::items))
      enableDtx codecPayload (done++[item]) items

/-- The predicate of `rtp`. -/
def keepRtp (type : Text) (codecPayload rtxPayload : ℤ) :
    List J.Json → Prog (Editing J) (Exc J) (List J.Json)
  | [] => pure []
  | item::items => do
      let payload ← lib (J.atKey item "payload")
      if rtxPayload ≠ -1 ∧ J.isInt payload rtxPayload then
        pushRtpmap type item
        let rest ← keepRtp type codecPayload rtxPayload items
        pure (item::rest)
      else
        let rest ← keepRtp type codecPayload rtxPayload items
        pure (if J.isInt payload codecPayload then item::rest else rest)

/-- The predicate of `rtcpFb` and `rtcpFbTrrInt`. -/
def keepRtcpFb (codecPayload : ℤ) : List J.Json → Except J.Error (List J.Json)
  | [] => pure []
  | item::items => do
      let payload ← J.atKey item "payload"
      let rest ← keepRtcpFb codecPayload items
      pure (if J.isText payload (decimal codecPayload) ∨ J.isText payload (text "*")
        then item::rest else rest)

/-- The feedback lines of other payloads go. -/
def filterRtcpFb (key : String) (codecPayload : ℤ) : Prog (Editing J) (Exc J) Unit := do
  if ← hasKey key then
    editMember key fun fbs => do J.retain fbs (← keepRtcpFb codecPayload (J.elements fbs))

/-- The codec that is selected for a type of media. -/
def codecOf (type : Text) : Option Text :=
  if type = text "video" then some (text "VP8")
  else if type = text "audio" then some (text "opus")
  else none

/-- What is done to a section after the setup; it is false where the codec is not offered. -/
def finishPublish (dtx : Bool) : Prog (Editing J) (Exc J) Bool := do
  assignRids (text "recv")
  assignSimulcast (text "recv")
  let type ← read fun m => textAt m "type"
  match codecOf type with
  | none => pure true
  | some codec =>
      let hasRtp ← hasKey "rtp"
      let codecPayload ← if hasRtp then do
          let rtp ← read fun m => J.atKey m "rtp"
          selectCodec type codec (J.elements rtp)
        else pure (-1)
      if hasRtp ∧ codecPayload = -1 then pure false
      else
        let rtxPayload ← if ← hasKey "fmtp" then do
            let fmtp ← read fun m => J.atKey m "fmtp"
            let kept ← lib (keepFmtp codecPayload (J.elements fmtp) (-1))
            editMember "fmtp" fun fmtp => J.retain fmtp kept.1
            if dtx ∧ codec = text "opus" then
              let fmtp ← read fun m => J.atKey m "fmtp"
              enableDtx codecPayload [] (J.elements fmtp)
            pure kept.2
          else pure (-1)
        if hasRtp then
          let rtp ← read fun m => J.atKey m "rtp"
          let kept ← keepRtp type codecPayload rtxPayload (J.elements rtp)
          editMember "rtp" fun rtp => J.retain rtp kept
        filterRtcpFb "rtcpFb" codecPayload
        filterRtcpFb "rtcpFbTrrInt" codecPayload
        assign "payloads" (J.ofText (if rtxPayload = -1 then decimal codecPayload
          else decimal codecPayload++text " "++decimal rtxPayload))
        pure true

/-! ### The answer to a subscriber -/

def prepareSubscribe : Prog (Editing J) (Exc J) Unit := do
  assignCandidates
  assign "direction" (J.ofText (text "sendonly"))
  let s ← get
  assign "icePwd" (J.ofText s.negotiator.localIcePassword)
  assign "iceUfrag" (J.ofText s.negotiator.localIceUfrag)
  assign "fingerprint" (J.object [("type",J.ofText s.negotiator.localFingerprintType),
    ("hash",J.ofText s.negotiator.localFingerprintHash)])

/-- What the publisher said of the SSRCs of a type of media. -/
def assignFromMap (key : String) (map : SdpNegotiator J → Text → Option J.Json) :
    Prog (Editing J) (Exc J) Unit := do
  let type ← subscript "type"
  let type ← lib (J.toText type)
  let s ← get
  match map s.negotiator type with
  | some value => assign key value
  | none => pure ()

def kSimulcastSubscribeVideoSsrc : ℤ := 9527
def kSimulcastSubscribeVideoRtxSsrc : ℤ := 9526

/-- The canonical name of an SSRC. -/
def cnameLine (ssrc : ℤ) (cname : Text) : J.Json :=
  J.object [("id",J.ofInt ssrc),("attribute",J.ofText (text "cname")),("value",J.ofText cname)]

/-- What is done to a section after the setup; it is false where a simulcast section has no
stream name. -/
def finishSubscribe : Prog (Editing J) (Exc J) Bool := do
  assignFromMap "ssrcs" SdpNegotiator.mediaSectionSsrcsMap
  assignFromMap "ssrcGroups" SdpNegotiator.mediaSectionSsrcGroupsMap
  assignSimulcast (text "send")
  assignRids (text "send")
  let named ← if ← hasKey "simulcast" then do
      erase "ssrcs"
      erase "ssrcGroups"
      let msid ← read fun m => textAt m "msid"
      if 32 ∈ msid then
        let cname := msid.takeWhile (· ≠ 32)
        assign "ssrcs" (J.array [cnameLine kSimulcastSubscribeVideoSsrc cname,
          cnameLine kSimulcastSubscribeVideoRtxSsrc cname])
        assign "ssrcGroups" (J.array [J.object [("semantics",J.ofText (text "FID")),
          ("ssrcs",J.ofText (decimal kSimulcastSubscribeVideoSsrc++text " "++
            decimal kSimulcastSubscribeVideoRtxSsrc))]])
        pure true
      else pure false
    else pure true
  if named then
    erase "simulcast"
    erase "rids"
    pure true
  else pure false

end Editing

namespace SdpNegotiator

/-! ### Answers -/

/-- A media section of an answer is edited where it stands. -/
def inSection {α : Type} (sdp : SdpNegotiator J → J.Json)
    (put : J.Json → SdpNegotiator J → SdpNegotiator J)
    (body : Prog (Editing J) (Fault (Exc J)) α) (i : ℕ) :
    Prog (SdpNegotiator J) (Fault (Exc J)) α := do
  let n ← get
  let media ← safe (lib (J.atKey (sdp n) "media"))
  let mediaSection ← safe (lib (J.index media i))
  zoom (fun n => ⟨n,mediaSection⟩)
    (fun e _ => put (J.putMember (sdp e.negotiator) "media"
      (J.putElement media i e.mediaSection)) e.negotiator) body

def putPublishAnwser (sdp : J.Json) (n : SdpNegotiator J) : SdpNegotiator J :=
  { n with publishAnwserSdp := sdp }

def putSubscribeAnwser (sdp : J.Json) (n : SdpNegotiator J) : SdpNegotiator J :=
  { n with subscribeAnwserSdp := sdp }

/-- `publish_anwser_sdp_.erase(key)`. -/
def eraseFromAnwser (key : String) : Prog (SdpNegotiator J) (Exc J) Unit := do
  let n ← get
  let sdp ← lib (J.erase n.publishAnwserSdp key)
  modify (putPublishAnwser sdp)

/-- The answer starts as a copy of the offer. -/
def beginPublishAnswer : Prog (SdpNegotiator J) (Exc J) J.Json := do
  modify fun n => putPublishAnwser n.publishOfferSdp n
  eraseFromAnwser "iceOptions"
  eraseFromAnwser "fingerprint"
  eraseFromAnwser "direction"
  eraseFromAnwser "extmapAllowMixed"
  let n ← get
  lib (J.atKey n.publishAnwserSdp "media")

/-- `CreatePublishAnswer`; `dtx` is the server's configuration. -/
def createPublishAnswer (dtx : Bool) :
    Prog (SdpNegotiator J) (Fault (Exc J)) (Option Text) := do
  let n ← get
  let media ← safe beginPublishAnswer
  let complete ← whileItems (inSection publishAnwserSdp putPublishAnwser
    (Editing.editSection Editing.preparePublish n.remoteDtlsSetup (Editing.finishPublish dtx)))
    (List.range (J.size media))
  if complete then
    let n ← get
    let answer ← safe (lib (J.sdpWrite n.publishAnwserSdp))
    pure (some answer)
  else pure none

/-- The answer to a subscriber starts as a copy of the answer to the publisher; `none` where
that has no media. -/
def beginSubscribeAnswer : Prog (SdpNegotiator J) (Exc J) (Option J.Json) := do
  modify fun n => putSubscribeAnwser n.publishAnwserSdp n
  let n ← get
  if has n.subscribeAnwserSdp "media" then
    let media ← lib (J.atKey n.subscribeAnwserSdp "media")
    pure (some media)
  else pure none

/-- `CreateSubscribeAnswer`, which catches everything. -/
def createSubscribeAnswer : Prog (SdpNegotiator J) (Fault (Exc J)) (Option Text) :=
  catchThrown (do
    let n ← get
    match ← safe beginSubscribeAnswer with
    | none => pure none
    | some media =>
        let complete ← whileItems (inSection subscribeAnwserSdp putSubscribeAnwser
          (Editing.editSection Editing.prepareSubscribe n.remoteDtlsSetup
            Editing.finishSubscribe)) (List.range (J.size media))
        if complete then
          let n ← get
          let answer ← safe (lib (J.sdpWrite n.subscribeAnwserSdp))
          pure (some answer)
        else pure none) fun _ => pure none

/-- A section of the answer with what the publisher said of its SSRCs. -/
def mergeSection (n : SdpNegotiator J) (mediaSection : J.Json) : Except J.Error J.Json :=
  if has mediaSection "type" then do
    let type ← textAt mediaSection "type"
    let mediaSection ← match n.mediaSectionSsrcsMap type with
      | some ssrcs => J.set mediaSection "ssrcs" ssrcs
      | none => pure mediaSection
    match n.mediaSectionSsrcGroupsMap type with
    | some groups => J.set mediaSection "ssrcGroups" groups
    | none => pure mediaSection
  else pure mediaSection

/-- `GetMediaSections`. -/
def getMediaSections (n : SdpNegotiator J) : Except J.Error J.Json :=
  if has n.subscribeAnwserSdp "media" then J.atKey n.subscribeAnwserSdp "media"
  else if has n.publishAnwserSdp "media" then do
    let mediaSections ← J.atKey n.publishAnwserSdp "media"
    let merged ← (J.elements mediaSections).mapM (mergeSection n)
    pure (J.putElements mediaSections merged)
  else pure J.null

end SdpNegotiator
end Ylrtc.Signaling
