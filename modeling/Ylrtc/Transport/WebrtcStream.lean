import Ylrtc.Base.UdpSocket
import Ylrtc.Dtls.DtlsTransport
import Ylrtc.Ice.IceLite
import Ylrtc.Ice.Ufrag

/-!
# The connection of a stream

`WebrtcStream` of `transport/webrtc_stream.cpp` between its socket, ICE, DTLS and SRTP.
Everything but a datagram of the proxy happens on the worker thread of the stream, in
any order; what is posted to that thread is run in the order in which it was posted. A
log keeps the steps of the connection and whatever goes in and out, so that it can be
said what each of them rests on.
-/
namespace Ylrtc.Connection
open CursorParser Run Signaling Srtp Stun

/-! ### What kind of datagram it is -/

def isDtls (b : Region) : Bool := 13 ≤ b.size && 19 < b.bytes 0 && b.bytes 0 < 64

def rtcpTypes : List Byte := [192,195,200,201,202,203,204,205,206,207]

def isRtcp (b : Region) : Bool :=
  4 ≤ b.size && b.bytes 0 >>> 6 = 2 && rtcpTypes.contains (b.bytes 1)

def isRtpPacket (b : Region) : Bool := 12 ≤ b.size && b.bytes 0 >>> 6 = 2

def dataOf (d : Ice.Datagram) : List Byte := bytesAt d.data.bytes d.data.size

/-! ### The stream -/

/-- The libraries. -/
structure Environment (ε κ : Type) where
  hmac : Hmac
  ssl : Dtls.Ssl ε
  srtp : LibSrtp κ

inductive Media where
  | rtp
  | rtcp
  deriving DecidableEq, Repr

/-- What a datagram is sent for; media has gone through the session with a policy. -/
inductive Payload where
  | stun
  | dtls
  | media (kind : Media) (policy : Policy)
  deriving DecidableEq, Repr

/-- A step of the connection, a call of the observer, or a packet. `sent` is what the socket
has taken, `received` what `OnRtpPacketReceive` or `OnRtcpPacketReceive` has been given. -/
inductive Entry (ε : Type) where
  | nominated (ep : UdpEndpoint)
  | started (active : Bool)
  | handshakeDone
  | verified (ssl : ε)
  | setup (suite : CipherSuite) (localMasterKey remoteMasterKey : List Byte)
  | connected
  | established
  | shutdown
  | stopped
  | received (kind : Media) (policy : Policy) (data : List Byte)
  | sent (payload : Payload) (message : Udp.UdpMessage)

/-- What is posted to the worker thread. -/
inductive Task where
  | receive (d : Ice.Datagram)
  | dtls (task : Dtls.Task)
  | stop

/-- After `Start`; `observed` tells whether the observer is still there. -/
structure WebrtcStream (ε κ : Type) where
  iceLite : Ice.IceLite
  dtlsTransport : Dtls.Transport ε
  remoteDtlsSetup : Text
  sendSrtpSession : SrtpSession κ := {}
  recvSrtpSession : SrtpSession κ := {}
  udpSocket : Option Udp.UdpSocket := none
  selectedEndpoint : UdpEndpoint
  connectionEstablished : Bool := false
  dtlsReady : Bool := false
  stoped : Bool := false
  observed : Bool := true
  posted : List Task := []
  log : List (Entry ε) := []

namespace WebrtcStream
variable {ε κ : Type} (env : Environment ε κ)

def note (s : WebrtcStream ε κ) (x : Entry ε) : WebrtcStream ε κ := { s with log := s.log++[x] }

/-- `SendData`, which does nothing once the socket is closed. -/
def send (s : WebrtcStream ε κ) (payload : Payload) (message : Udp.UdpMessage) :
    WebrtcStream ε κ :=
  match s.udpSocket with
  | none => s
  | some u =>
      let s := { s with udpSocket := some (u.sendMessage message) }
      if u.closed then s else s.note (.sent payload message)

def shutdown (s : WebrtcStream ε κ) : WebrtcStream ε κ :=
  if s.stoped then s
  else
    let s := { s with stoped := true }
    if s.observed then s.note .shutdown else s

/-! Callbacks of DTLS -/

def onDtlsTransportSendData (s : WebrtcStream ε κ) (data : List Byte) : WebrtcStream ε κ :=
  s.send .dtls ⟨data,s.selectedEndpoint⟩

/-- The end of `OnDtlsTransportSetup`. -/
def establish (s : WebrtcStream ε κ) : WebrtcStream ε κ :=
  { (if s.observed then s.note .connected else s) with connectionEstablished := true }.note
    .established

/-- `OnDtlsTransportSetup`: the second session is not looked at where the first one fails. -/
def onDtlsTransportSetup (s : WebrtcStream ε κ) (suite : CipherSuite)
    (localMasterKey remoteMasterKey : List Byte) : WebrtcStream ε κ :=
  let s := s.note (.setup suite localMasterKey remoteMasterKey)
  let (session,ok) := s.sendSrtpSession.init env.srtp false suite localMasterKey
  let s := { s with sendSrtpSession := session }
  if ok then
    let (session,ok) := s.recvSrtpSession.init env.srtp true suite remoteMasterKey
    let s := { s with recvSrtpSession := session }
    if ok then s.establish else s.shutdown
  else s.shutdown

/-- The end of a handshake is known by the task that it posts. -/
def handleDtls (s : WebrtcStream ε κ) : Dtls.Call ε → WebrtcStream ε κ
  | .sendData data => s.onDtlsTransportSendData data
  | .setup suite localMasterKey remoteMasterKey =>
      s.onDtlsTransportSetup env suite localMasterKey remoteMasterKey
  | .error => s.shutdown
  | .shutdown => s.shutdown
  | .post task =>
      let t := { s with posted := s.posted++[.dtls task] }
      if task = .setupSRTP then t.note .handshakeDone else t
  | .started active => s.note (.started active)
  | .verified x => s.note (.verified x)

def onDtls (s : WebrtcStream ε κ) (r : Dtls.Transport ε × List (Dtls.Call ε)) :
    WebrtcStream ε κ :=
  r.2.foldl (handleDtls env) { s with dtlsTransport := r.1 }

/-! Callbacks of ICE -/

def onIceConnectionCompleted (s : WebrtcStream ε κ) : WebrtcStream ε κ :=
  let s := { s with selectedEndpoint := s.iceLite.selectedCandidate }.note
    (.nominated s.iceLite.selectedCandidate)
  let (started,r) := s.dtlsTransport.start env.ssl s.remoteDtlsSetup
  let s := s.onDtls env r
  if started then { s with dtlsReady := true } else s

/-- The response goes to the selected endpoint. -/
def handleIce (s : WebrtcStream ε κ) : Ice.ObserverCall → WebrtcStream ε κ
  | .stunMessageSend data _ => s.send .stun ⟨data,s.selectedEndpoint⟩
  | .iceConnectionCompleted => s.onIceConnectionCompleted env
  | .iceConnectionError => s.shutdown

def processStunMessage (s : WebrtcStream ε κ) (d : Ice.Datagram) : WebrtcStream ε κ :=
  let (ice,calls) := s.iceLite.processStunMessage env.hmac d
  calls.foldl (handleIce env) { s with iceLite := ice }

/-! Callbacks of the socket -/

/-- The session that was used, and what came out of it. -/
def received (s : WebrtcStream ε κ) (kind : Media)
    (r : SrtpSession κ × Option (Policy × List Byte)) : WebrtcStream ε κ :=
  let s := { s with recvSrtpSession := r.1 }
  match r.2 with
  | none => s
  | some (policy,data) => s.note (.received kind policy data)

def receiveMedia (s : WebrtcStream ε κ) (kind : Media) (data : List Byte) : WebrtcStream ε κ :=
  if s.connectionEstablished then
    s.received kind (match kind with
      | .rtp => s.recvSrtpSession.unprotectRtp env.srtp data
      | .rtcp => s.recvSrtpSession.unprotectRtcp env.srtp data)
  else s

def onUdpSocketDataReceive (s : WebrtcStream ε κ) (d : Ice.Datagram) : WebrtcStream ε κ :=
  if isStun d.data then s.processStunMessage env d
  else if isDtls d.data then
    if s.dtlsReady then
      s.onDtls env (s.dtlsTransport.processDataFromPeer env.ssl (dataOf d))
    else s
  else if isRtcp d.data then s.receiveMedia env .rtcp (dataOf d)
  else if isRtpPacket d.data then s.receiveMedia env .rtp (dataOf d)
  else s

/-- `HandleReceive` of the socket. -/
def handleReceive (s : WebrtcStream ε κ) (u : Udp.UdpSocket) (ec : Udp.ReceiveError)
    (d : Ice.Datagram) : WebrtcStream ε κ :=
  if u.closed then { s with udpSocket := some u }
  else
    match ec with
    | .none | .messageSize =>
        let s := { s with
          udpSocket := some (u.onUdpSocketDataReceive (dataOf d) d.remoteEp (some [])) }
        let s := s.onUdpSocketDataReceive env d
        { s with udpSocket := s.udpSocket.map Udp.UdpSocket.startReceive }
    | .other => { s with udpSocket := some (u.onUdpSocketError (some [])) }.shutdown

/-! Calls from outside -/

/-- `ReceiveDataFromProxy`. -/
def receiveDataFromProxy (s : WebrtcStream ε κ) (listens : Bool) (d : Ice.Datagram) :
    WebrtcStream ε κ :=
  match s.udpSocket with
  | some _ => { s with posted := s.posted++[.receive d] }
  | none =>
      if listens then { s with
        udpSocket := some (Udp.opened true), posted := s.posted++[.receive d] }
      else s

def sent (s : WebrtcStream ε κ) (kind : Media)
    (r : SrtpSession κ × Option (Policy × List Byte)) : WebrtcStream ε κ :=
  let s := { s with sendSrtpSession := r.1 }
  match r.2 with
  | none => s
  | some (policy,data) => s.send (.media kind policy) ⟨data,s.selectedEndpoint⟩

/-- `SendRtp` and `SendRtcp`, behind the serialization. -/
def sendMedia (s : WebrtcStream ε κ) (kind : Media) (data : List Byte) : WebrtcStream ε κ :=
  if s.connectionEstablished then
    let session := s.sendSrtpSession
    s.sent kind (match kind with
      | .rtp => session.protectRtp env.srtp data (session.getProtectRtpNeedLength data.length)
      | .rtcp => session.protectRtcp env.srtp data (session.getProtectRtcpNeedLength data.length))
  else s

/-- `WebrtcStream::Stop`, as `PublishStream` and `SubscribeStream` post it. -/
def stop (s : WebrtcStream ε κ) : WebrtcStream ε κ :=
  if s.stoped then s
  else
    let s := s.onDtls env (s.dtlsTransport.stop env.ssl)
    let s := { s with udpSocket := s.udpSocket.map Udp.UdpSocket.close }
    s.shutdown.note .stopped

def runTask (s : WebrtcStream ε κ) : Task → WebrtcStream ε κ
  | .receive d => s.onUdpSocketDataReceive env d
  | .dtls task => s.onDtls env (s.dtlsTransport.runTask env.ssl task)
  | .stop => s.stop env

end WebrtcStream

/-- `proxy` is a datagram that the proxy has received for the stream, and `sendRtcp` what
`Serialize` makes of the packet. -/
inductive Event where
  | proxy (listens : Bool) (d : Ice.Datagram)
  | runTask
  | timeout
  | handSend (ec : Bool)
  | handleReceive (ec : Udp.ReceiveError) (d : Ice.Datagram)
  | handleConnected (error : Bool)
  | sendRtp (data : List Byte)
  | sendRtcp (serialized : Option (List Byte))
  | stop
  | observerGone

/-- An event. A completion runs while its operation is outstanding. -/
def step {ε κ : Type} (env : Environment ε κ) (s : WebrtcStream ε κ) : Event → WebrtcStream ε κ
  | .proxy listens d => if isStun d.data then s.receiveDataFromProxy listens d else s
  | .runTask =>
      match s.posted with
      | [] => s
      | task::posted => { s with posted := posted }.runTask env task
  | .timeout => s.onDtls env (s.dtlsTransport.onTimerTimeout env.ssl)
  | .handSend ec =>
      match s.udpSocket with
      | none => s
      | some u =>
          let t := { s with udpSocket := some (Udp.step u (.handSend ec (some []))) }
          if u.sendQueue.outstanding ≠ [] ∧ u.closed = false ∧ ec then t.shutdown else t
  | .handleReceive ec d =>
      match s.udpSocket with
      | none => s
      | some u =>
          if u.receiving = 0 then s
          else s.handleReceive env { u with receiving := u.receiving-1 } ec d
  | .handleConnected error =>
      match s.udpSocket with
      | none => s
      | some u =>
          let t := { s with udpSocket := some (Udp.step u (.handleConnected error (some []))) }
          if u.connecting ≠ 0 ∧ error then t.shutdown else t
  | .sendRtp data => s.sendMedia env .rtp data
  | .sendRtcp serialized =>
      match serialized with
      | none => s
      | some data => s.sendMedia env .rtcp data
  | .stop => { s with posted := s.posted++[.stop] }
  | .observerGone => { s with observed := false }

/-- A stream whose `Start` has succeeded, with the endpoint that is selected at first. -/
def started {ε κ : Type} (iceLite : Ice.IceLite) (peer : Dtls.DtlsTransport) (ssl : ε)
    (remoteDtlsSetup : Text) (first : UdpEndpoint) : WebrtcStream ε κ :=
  { iceLite := iceLite, dtlsTransport := { peer with ssl := some ssl }
    remoteDtlsSetup := remoteDtlsSetup, selectedEndpoint := first }

/-! ### What the log says -/

namespace Entry
variable {ε : Type}

def message : Entry ε → Option Udp.UdpMessage
  | .sent _ message => some message
  | _ => none

def isSetup : Entry ε → Bool
  | .setup .. => true
  | _ => false

def isHandshakeDone : Entry ε → Bool
  | .handshakeDone => true
  | _ => false

/-- The policy of the session that media has gone through. -/
def policy : Entry ε → Option Policy
  | .received _ policy _ => some policy
  | .sent (.media _ policy) _ => some policy
  | _ => none

end Entry

/-- The endpoint nominated last. -/
def nominee {ε : Type} (first : UdpEndpoint) (log : List (Entry ε)) : UdpEndpoint :=
  log.foldl (fun ep x => match x with | .nominated ep => ep | _ => ep) first

/-- What the socket was given. -/
def messages {ε : Type} (log : List (Entry ε)) : List Udp.UdpMessage :=
  log.filterMap Entry.message

/-- A policy with the master key of one direction of a setup. -/
def Keyed {ε : Type} (incoming : Bool) (log : List (Entry ε)) (p : Policy) : Prop :=
  ∃ suite localMasterKey remoteMasterKey,
    .setup suite localMasterKey remoteMasterKey ∈ log ∧
      policy incoming suite (if incoming then remoteMasterKey else localMasterKey) = some p

/-- What an entry rests on. Media needs sessions with the keys of a setup, a setup the
connection whose certificate has just been verified, that a handshake that is done, and a
handshake a nomination. Datagrams go to the endpoint nominated last. The observer hears of one
shutdown. Once a `Stop` has stopped the stream, which it does not do to one that had shut down
before, nothing but responses of ICE is sent. -/
def Justified {ε κ : Type} (env : Environment ε κ) (first : UdpEndpoint)
    (peer : Dtls.DtlsTransport) (before : List (Entry ε)) : Entry ε → Prop
  | .nominated _ => True
  | .started _ => ∃ ep, .nominated ep ∈ before
  | .handshakeDone => True
  | .verified x => .handshakeDone ∈ before ∧
      Dtls.checkRemoteCertificate peer (env.ssl.peerCertificate x) = true
  | .setup suite localMasterKey remoteMasterKey => ∃ x active,
      before.getLast? = some (.verified x) ∧ .started active ∈ before ∧
        Dtls.srtpParams env.ssl active x = some (suite,localMasterKey,remoteMasterKey)
  | .connected | .established => ∃ suite localMasterKey remoteMasterKey,
      .setup suite localMasterKey remoteMasterKey ∈ before
  | .shutdown => .shutdown ∉ before
  | .stopped => .stopped ∉ before
  | .received _ p _ => .established ∈ before ∧ Keyed true before p
  | .sent payload message => message.endpoint = nominee first before ∧
      match payload with
      | .stun => True
      | .dtls => .stopped ∉ before
      | .media _ p => .stopped ∉ before ∧ .established ∈ before ∧ Keyed false before p

end Ylrtc.Connection
