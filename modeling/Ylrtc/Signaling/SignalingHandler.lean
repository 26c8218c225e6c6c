import Ylrtc.Ice.Ufrag
import Ylrtc.Signaling.LocalDescription
import Ylrtc.Signaling.Sessions

/-!
# The signaling handler

`SignalingHandler::HandleSignaling` of `signaling/signaling_handler.cpp` with the functions of
the room behind it, as far as they return, throw or abort. What they send to other sessions is
left out: it is made of strings that came out of JSON and can be written again.
-/
namespace Ylrtc.Signaling
open CursorParser Prog

inductive YlError where
  | kOk
  | kRoomIdAlreadyExists
  | kParticipantAlreadyJoined
  | kNoRoomWithCorrespondingID
  | kSubscriptionFailed
  | kPublishFailed
  | kFailedToJoinRoom
  | kNoStreamWithCorrespondingIdFound
  | kUnsupportedActions
  | kErrorUnknown
  deriving DecidableEq

def ylErrorToString : YlError → Text
  | .kOk => text "Ok."
  | .kRoomIdAlreadyExists => text "Room ID already exists."
  | .kParticipantAlreadyJoined => text "Participant already joined."
  | .kNoRoomWithCorrespondingID => text "No room with corresponding id."
  | .kSubscriptionFailed => text "Subscription failed."
  | .kPublishFailed => text "Publish failed."
  | .kFailedToJoinRoom => text "Failed to join room."
  | .kNoStreamWithCorrespondingIdFound => text "No stream with corresponding id found."
  | .kUnsupportedActions => text "Unsupported actions."
  | .kErrorUnknown => text "Unknown error."

/-- What comes from outside while a request is handled. -/
structure Environment where
  /-- The id that is drawn for a new stream, after those that exist already. -/
  streamId : Id
  /-- Whether `DtlsTransport::Init` succeeds. -/
  dtlsInit : Bool := true
  announcedIp : Text := []
  webRtcPort : ℕ := 0
  fingerprint : Text := []
  localPassword : Text := []
  enableDtx : Bool := false
  timeMillis : ℤ := 0
  /-- What the memory of a new configuration holds. -/
  memory : TrackConfiguration := { ssrc := 0, payloadType := 0 }
  /-- The order in which a loop meets the participants of a room. -/
  order : Finset Id → List Id

/-- The rooms and their streams, the session that the request comes from, and the response as
far as it is written. -/
structure Handler (J : JsonLibrary) where
  idRoomMap : Id → Option Room := fun _ => none
  streams : Id → StreamData J := fun _ => {}
  sessionInfo : SessionInfo := {}
  roomInfoWhenJoining : J.Json := J.null
  lastReceiveKeepAlive : Option ℤ := none
  /-- The calls on the streams of the rooms, and the layers that were asked for. -/
  calls : List Call := []
  layers : List (Id × BitVec 32) := []
  response : List (String × J.Json) := []

variable {J : JsonLibrary}

namespace Handler

def respond {ε : Type} (key : String) (value : J.Json) : Prog (Handler J) ε Unit :=
  modify fun h => { h with response := h.response++[(key,value)] }

def onStream {ε α : Type} (id : Id) (m : Prog (StreamData J) ε α) : Prog (Handler J) ε α :=
  zoom (fun h => h.streams id)
    (fun d h => { h with streams := Function.update h.streams id d }) m

def onSdp {ε α : Type} (m : Prog (SdpNegotiator J) ε α) : Prog (StreamData J) ε α :=
  zoom StreamData.sdp (fun n d => { d with sdp := n }) m

theorem onStream_eq {ε α : Type} {id : Id} {m : Prog (StreamData J) ε α} {r : Except ε α}
    {h : Handler J} {d : StreamData J} (hm : m (h.streams id) = (r,d)) :
    onStream id m h = (r,{ h with streams := Function.update h.streams id d }) := by
  simp only [onStream,zoom,hm]

theorem onSdp_eq {ε α : Type} {id : Id} {m : Prog (SdpNegotiator J) ε α} {r : Except ε α}
    {h : Handler J} {n : SdpNegotiator J} (hm : m (h.streams id).sdp = (r,n)) :
    onStream id (onSdp m) h =
      (r,{ h with streams := Function.update h.streams id { h.streams id with sdp := n } }) := by
  simp only [onStream,onSdp,zoom,hm]

/-- `WebrtcStream::Start`, where it succeeds: what the negotiator is told of this side. -/
def localSide (env : Environment) (roomId : Id) (n : SdpNegotiator J) : SdpNegotiator J :=
  { n with
    localCandidate := J.object [("foundation",J.ofText (text "ylrtc")),("component",J.ofInt 1),
      ("transport",J.ofText (text "udp")),("priority",J.ofInt 2147483647),
      ("ip",J.ofText env.announcedIp),("port",J.ofInt env.webRtcPort),
      ("type",J.ofText (text "host"))]
    localFingerprintType := text "sha-256"
    localFingerprintHash := env.fingerprint
    localIceUfrag := Stun.makeUfrag roomId env.streamId
    localIcePassword := env.localPassword }

/-- The stream is registered in the room. -/
def register (env : Environment) (roomId : Id) (room : Room) (calls : List Call)
    (sdp : SdpNegotiator J) : Prog (Handler J) (Exc J) Unit :=
  modify fun h => { h with
    idRoomMap := Function.update h.idRoomMap roomId (some room)
    streams := Function.update h.streams env.streamId { sdp := localSide env roomId sdp }
    calls := h.calls++calls }

/-- `Room::ParticipantPublish`. -/
def participantPublish (env : Environment) (roomId : Id) (room : Room) (participantId : Id)
    (offer : Text) : Prog (Handler J) (Exc J) (Option Id) := do
  match room.participantPublish participantId env.streamId with
  | some room =>
      let (accepted,sdp) ← isolated {} (SdpNegotiator.setPublishOffer offer)
      if accepted && env.dtlsInit then
        register env roomId room [] sdp
        pure (some env.streamId)
      else pure none
  | none => pure none

/-- `Room::ParticipantSubscribe`. -/
def participantSubscribe (env : Environment) (roomId : Id) (room : Room)
    (srcParticipantId dstParticipantId publish : Id) (offer : Text) :
    Prog (Handler J) (Exc J) (Option Id) := do
  match room.participantSubscribe srcParticipantId dstParticipantId publish env.streamId with
  | some (room,calls) =>
      let h ← get
      let (accepted,sdp) ← isolated (h.streams publish).sdp (SdpNegotiator.setSubscribeOffer offer)
      if accepted && env.dtlsInit then
        register env roomId room calls sdp
        pure (some env.streamId)
      else pure none
  | none => pure none

/-- `Room::GetRoomInfo`. -/
def getRoomInfo (env : Environment) (h : Handler J) (room : Room) : J.Json :=
  J.object [
    ("participants",J.array ((env.order room.participantIdSet).map J.ofText)),
    ("streams",J.array (room.participantPublishsMap.entries.flatMap fun e =>
      (e.2.filter fun x => (h.streams x).connectionEstablished).map fun x => J.object [
        ("participantId",J.ofText e.1),("publishStreamId",J.ofText x),
        ("hasVideo",J.ofBool (h.streams x).hasVideo),
        ("hasAudio",J.ofBool (h.streams x).hasAudio)]))]

/-- `GetStreamById` and the cast to a publish stream. -/
def isPublishStream (room : Room) (id : Id) : Bool :=
  room.participantPublishsMap.entries.any fun e => id ∈ e.2

/-- `GetStreamById` and the cast to a subscribe stream. -/
def isSubscribeStream (room : Room) (id : Id) : Bool :=
  !isPublishStream room id && room.participantSubscribesMap.entries.any fun e => id ∈ e.2

/-- `UpdateMuteInfo`, which ends with `NOTREACHED`. -/
def updateMuteInfo (type : Text) (muted : Bool) : Prog (StreamData J) (Fault (Exc J)) Unit :=
  if type = text "audio" then modify fun s => { s with hasAudio := !muted }
  else if type = text "video" then modify fun s => { s with hasVideo := !muted }
  else abort

/-! ### The actions -/

/-- What happens to a stream that is registered: its answer and its local description. -/
def complete (failed : YlError) (id : Id)
    (createAnswer : Prog (SdpNegotiator J) (Fault (Exc J)) (Option Text))
    (setLocalDescription : Prog (StreamData J) (Fault (Exc J)) Unit) :
    Prog (Handler J) (Fault (Exc J)) YlError := do
  respond "streamId" (J.ofText id)
  match ← onStream id (onSdp createAnswer) with
  | some answer =>
      respond "answer" (J.ofText answer)
      onStream id setLocalDescription
      pure .kOk
  | none => pure failed

def completePublish (env : Environment) (id : Id) :
    Prog (Handler J) (Fault (Exc J)) YlError :=
  complete .kPublishFailed id (SdpNegotiator.createPublishAnswer env.enableDtx)
    (publishSetLocalDescription env.memory)

def completeSubscribe (env : Environment) (id : Id) :
    Prog (Handler J) (Fault (Exc J)) YlError :=
  complete .kSubscriptionFailed id SdpNegotiator.createSubscribeAnswer
    (safe (subscribeSetLocalDescription env.memory))

/-- A subscribe request up to the stream that it registers. -/
def subscribeStream (env : Environment) (request : J.Json) :
    Prog (Handler J) (Exc J) (YlError ⊕ Id) := do
  let streamId ← lib (textAt request "streamId")
  let offer ← lib (textAt request "offer")
  let participantId ← lib (textAt request "participantId")
  let h ← get
  match h.idRoomMap h.sessionInfo.roomId with
  | some room =>
      match ← participantSubscribe env h.sessionInfo.roomId room
        h.sessionInfo.participantId participantId streamId offer with
      | some id => pure (.inr id)
      | none => pure (.inl .kSubscriptionFailed)
  | none => pure (.inl .kNoRoomWithCorrespondingID)

def subscribe (env : Environment) (request : J.Json) :
    Prog (Handler J) (Fault (Exc J)) YlError := do
  match ← safe (subscribeStream env request) with
  | .inr id => completeSubscribe env id
  | .inl error => pure error

/-- A publish request up to the stream that it registers. -/
def publishStream (env : Environment) (request : J.Json) :
    Prog (Handler J) (Exc J) (YlError ⊕ Id) := do
  let h ← get
  match h.idRoomMap h.sessionInfo.roomId with
  | some room =>
      let offer ← lib (textAt request "offer")
      match ← participantPublish env h.sessionInfo.roomId room
        h.sessionInfo.participantId offer with
      | some id => pure (.inr id)
      | none => pure (.inl .kPublishFailed)
  | none => pure (.inl .kNoRoomWithCorrespondingID)

def publish (env : Environment) (request : J.Json) :
    Prog (Handler J) (Fault (Exc J)) YlError := do
  match ← safe (publishStream env request) with
  | .inr id => completePublish env id
  | .inl error => pure error

/-- The result of `Room::Join` is a success either way. -/
def join (env : Environment) (request : J.Json) : Prog (Handler J) (Exc J) YlError := do
  let roomId ← lib (textAt request "roomId")
  let participantId ← lib (textAt request "participantId")
  let h ← get
  match h.idRoomMap roomId with
  | some room =>
      let room := (room.join participantId).1
      let info := getRoomInfo env h room
      modify fun h => { h with
        idRoomMap := Function.update h.idRoomMap roomId (some room)
        roomInfoWhenJoining := info
        sessionInfo := ⟨roomId,participantId⟩ }
      respond "roomInfo" info
      pure .kOk
  | none => pure .kNoRoomWithCorrespondingID

def muteOrUnmute (request : J.Json) : Prog (Handler J) (Fault (Exc J)) YlError := do
  let streamId ← safe (lib (textAt request "streamId"))
  let muted ← safe (lib (do J.toBool (← J.atKey request "muted")))
  let type ← safe (lib (textAt request "type"))
  let h ← get
  match h.idRoomMap h.sessionInfo.roomId with
  | some room =>
      if isPublishStream room streamId then
        onStream streamId (updateMuteInfo type muted)
        pure .kOk
      else pure .kNoStreamWithCorrespondingIdFound
  | none => pure .kNoRoomWithCorrespondingID

def changeSimulcastLayer (request : J.Json) : Prog (Handler J) (Exc J) YlError := do
  let streamId ← lib (textAt request "subscribeStreamId")
  let layer ← lib (textAt request "simulcastLayer")
  let h ← get
  match h.idRoomMap h.sessionInfo.roomId with
  | some room =>
      if isSubscribeStream room streamId then
        let rid ← std (stoi layer)
        modify fun h => { h with layers := h.layers++[(streamId,BitVec.ofInt 32 rid)] }
        pure .kOk
      else pure .kNoStreamWithCorrespondingIdFound
  | none => pure .kNoRoomWithCorrespondingID

def act (env : Environment) (action : Text) (request : J.Json) :
    Prog (Handler J) (Fault (Exc J)) YlError :=
  if action = text "subscribe" then subscribe env request
  else if action = text "publish" then publish env request
  else if action = text "join" then safe (join env request)
  else if action = text "publish_muteOrUnmute" then muteOrUnmute request
  else if action = text "keepAlive" then do
    modify fun h => { h with lastReceiveKeepAlive := some env.timeMillis }
    pure .kOk
  else if action = text "ChangeSimulcastLayer" then safe (changeSimulcastLayer request)
  else pure .kUnsupportedActions

/-- The request up to its action. -/
def readRequest (signaling : Text) : Prog (Handler J) (Exc J) (Text × J.Json) := do
  let request ← lib (J.parse signaling)
  let action ← lib (textAt request "action")
  if has request "transactionId" then
    let transactionId ← lib (J.atKey request "transactionId")
    respond "transactionId" transactionId
  pure (action,request)

/-- The response is written, with the error that it tells. -/
def answer (env : Environment) (signaling : Text) : Prog (Handler J) (Fault (Exc J)) Bool :=
  catchThrown (do
    let (action,request) ← safe (readRequest signaling)
    let result ← act env action request
    respond "error" (J.ofBool (result != .kOk))
    respond "detail" (J.ofText (ylErrorToString result))
    pure (result != .kOk)) fun e => do
      respond "error" (J.ofBool true)
      respond "detail" (J.ofText (text "Bad request. Reason: "++e.what++text "."))
      pure true

/-- `dump` of the response, which no handler stands around. -/
def writeResponse (error : Bool) : Prog (Handler J) (Fault (Exc J)) (Bool × Text) := do
  let h ← get
  let response ← safe (lib (J.dump (J.object h.response)))
  pure (error,response)

/-- `HandleSignaling`: the error that the response tells, and its text. -/
def handleSignaling (env : Environment) (signaling : Text) :
    Prog (Handler J) (Fault (Exc J)) (Bool × Text) := do
  modify fun h => { h with response := [] }
  let error ← answer env signaling
  writeResponse error

end Handler
end Ylrtc.Signaling
