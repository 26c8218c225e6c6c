import Ylrtc.Dtls.Fingerprint
import Ylrtc.Dtls.SrtpSession
import Ylrtc.Signaling.SdpNegotiator

/-!
# The DTLS transport

`DtlsTransport` of `dtls_srtp/dtls_transport.cpp`. OpenSSL is a library: one
connection of it is a parameter that may do anything during a call, and reports the
info callbacks of the call. The pointer to it is null once the transport has
stopped. What the transport calls on its observer, and what it posts to the worker
thread, is listed in order: the observer does not call back.
-/
namespace Ylrtc.Dtls
open CursorParser Signaling Srtp

/-- The certificate of a peer, known by `X509_digest`. -/
abbrev Certificate := Hash → Option (List Byte)

/-- Where a call of OpenSSL leaves the connection, and for each info callback during it whether
`where` has `SSL_CB_HANDSHAKE_DONE`. -/
abbrev Called (ε : Type) := ε × List Bool

/-- The connection of OpenSSL together with its two memory buffers. -/
structure Ssl (ε : Type) where
  setConnectState : ε → ε
  setAcceptState : ε → ε
  doHandshake : ε → Called ε
  /-- `DTLSv1_handle_timeout`, and whether it failed with anything but `SSL_ERROR_WANT_WRITE`. -/
  handleTimeout : ε → Called ε × Bool
  /-- `DTLSv1_get_timeout`, in milliseconds. -/
  getTimeout : ε → Option ℕ
  /-- `BIO_write` to what is to be read. -/
  bioWrite : ε → List Byte → ε
  sslRead : ε → Called ε
  /-- `BIO_ctrl_pending` and `BIO_read` of what is to be sent. -/
  pending : ε → Bool
  bioRead : ε → ε × List Byte
  receivedShutdown : ε → Bool
  clear : ε → ε
  shutdown : ε → Called ε
  peerCertificate : ε → Option Certificate
  selectedSrtpProfile : ε → Option String
  exportKeyingMaterial : ε → Option (Vector Byte (maxLength*2))

inductive Setup where
  | kActive
  | kPassive
  | kActPass
  | kUnknown
  deriving DecidableEq, Repr

def stringToSetup : List (Text × Setup) :=
  [(text "active",.kActive),(text "passive",.kPassive),(text "actpass",.kActPass)]

/-- The other overload of `SetupSelector`. -/
def Setup.selector : Setup → Option Setup
  | .kPassive => some .kActive
  | .kActPass => some .kActive
  | .kActive => some .kPassive
  | .kUnknown => none

/-- What `OnSSLInfo` posts to the worker thread. -/
inductive Task where
  | setupSRTP
  | checkPending
  deriving DecidableEq, Repr

/-- What the transport does to others. `started` and `verified` only tell of a step: that the
handshake starts, with the role that it starts in, and that the certificate of the connection
has the fingerprint of the SDP. -/
inductive Call (ε : Type) where
  | sendData (data : List Byte)
  | setup (suite : CipherSuite) (localMasterKey remoteMasterKey : List Byte)
  | error
  | shutdown
  | post (task : Task)
  | started (active : Bool)
  | verified (ssl : ε)

/-- What OpenSSL is called for on a null pointer, the first of several calls in a row. -/
inductive NullCall where
  | bioCtrlPending
  | getTimeout
  | handleTimeout
  | bioWrite
  | getShutdown
  | selectedSrtpProfile
  | peerCertificate
  deriving DecidableEq, Repr

/-- `ssl` is null before `Init` and after `Stop`, and `timer` holds the delay that the timer was
last set to. -/
structure Transport (ε : Type) extends DtlsTransport where
  ssl : Option ε
  setup : Setup := .kUnknown
  inited : Bool := false
  timer : Option (Option ℕ) := none
  /-- The calls of OpenSSL on a null pointer so far. -/
  nullCalls : List NullCall := []

def Transport.callNull {ε : Type} (t : Transport ε) (c : NullCall) : Transport ε :=
  { t with nullCalls := t.nullCalls++[c] }

def onSSLInfo {ε : Type} (handshakeDone : Bool) : List (Call ε) :=
  (if handshakeDone then [.post .setupSRTP] else [])++[.post .checkPending]

/-- The callbacks of one call. -/
def infoCalls {ε : Type} (infos : List Bool) : List (Call ε) := infos.flatMap onSSLInfo

/-- Keys from an exported material, for a profile of a known suite. -/
def srtpParams {ε : Type} (lib : Ssl ε) (active : Bool) (x : ε) :
    Option (CipherSuite × List Byte × List Byte) :=
  match lib.selectedSrtpProfile x with
  | none => none
  | some name =>
      let suite := getCipherSuiteFromString name
      if suite = .suiteNone then none
      else (lib.exportKeyingMaterial x).map fun material =>
        (suite,masterKeys active suite material.toList)

namespace Transport
variable {ε : Type} (lib : Ssl ε)

def trySendPendingData (t : Transport ε) : Transport ε × List (Call ε) :=
  match t.ssl with
  | none => (t.callNull .bioCtrlPending,[])
  | some x =>
      if lib.pending x then
        ({ t with ssl := some (lib.bioRead x).1 },[.sendData (lib.bioRead x).2])
      else (t,[])

def setTimeout (t : Transport ε) : Transport ε :=
  match t.timer with
  | none => t
  | some _ =>
      match t.ssl with
      | none => t.callNull .getTimeout
      | some x =>
          match lib.getTimeout x with
          | none => t
          | some delay => { t with timer := some (some delay) }

def checkPending (t : Transport ε) : Transport ε × List (Call ε) :=
  if t.inited then
    match t.ssl with
    | none => (t.setTimeout lib,[])
    | some _ =>
        let (t,calls) := t.trySendPendingData lib
        (t.setTimeout lib,calls)
  else (t,[])

def onTimerTimeout (t : Transport ε) : Transport ε × List (Call ε) :=
  if t.inited then
    match t.ssl with
    | none => (t.callNull .handleTimeout,[])
    | some x =>
        let ((x,infos),failed) := lib.handleTimeout x
        let t := { t with ssl := some x }
        if failed then (t,infoCalls infos)
        else
          let (t,calls) := t.trySendPendingData lib
          (t.setTimeout lib,infoCalls infos++calls)
  else (t,[])

/-- That the transport is not ready is only logged. -/
def processDataFromPeer (t : Transport ε) (data : List Byte) : Transport ε × List (Call ε) :=
  match t.ssl with
  | none => (t.callNull .bioWrite,[])
  | some x =>
      let (x,infos) := lib.sslRead (lib.bioWrite x data)
      let (t,calls) := { t with ssl := some x }.trySendPendingData lib
      let t := t.setTimeout lib
      match t.ssl with
      | none => (t.callNull .getShutdown,infoCalls infos++calls)
      | some x =>
          if lib.receivedShutdown x then
            ({ t with ssl := some (lib.clear x) },infoCalls infos++calls++[.shutdown])
          else (t,infoCalls infos++calls)

/-- `Start`, with its result. -/
def start (t : Transport ε) (setupInSdp : Text) : Bool × Transport ε × List (Call ε) :=
  match stringToSetup.lookup setupInSdp with
  | none => (false,t,[])
  | some remoteSetup =>
      match remoteSetup.selector with
      | none => (false,t,[])
      | some setup =>
          let t := { t with setup := setup }
          match t.ssl with
          | none => (false,t,[])
          | some x =>
              let x := if setup = .kActive then lib.setConnectState x else lib.setAcceptState x
              let (x,infos) := lib.doHandshake x
              let t := { t with ssl := some x, inited := true, timer := some none }
              (true,t.setTimeout lib,.started (setup = .kActive)::infoCalls infos)

def stop (t : Transport ε) : Transport ε × List (Call ε) :=
  let t := { t with inited := false }
  match t.ssl with
  | none => ({ t with timer := none },[])
  | some x =>
      let (x,infos) := lib.shutdown x
      let (t,calls) := { t with ssl := some x }.trySendPendingData lib
      ({ t with ssl := none, timer := none },infoCalls infos++calls)

/-- `ExtractSrtpParams`. -/
def extractSrtpParams (t : Transport ε) : Transport ε × List (Call ε) :=
  match t.ssl with
  | none => (t.callNull .selectedSrtpProfile,[])
  | some x =>
      match srtpParams lib (t.setup = .kActive) x with
      | none => (t,[])
      | some (suite,localMasterKey,remoteMasterKey) =>
          (t,[.setup suite localMasterKey remoteMasterKey])

/-- `SetupSRTP`, posted with what follows from its result. A null connection is asked for its
certificate too, and has none. -/
def setupSRTP (t : Transport ε) : Transport ε × List (Call ε) :=
  match t.ssl with
  | none => (t.callNull .peerCertificate,[.error])
  | some x =>
      if checkRemoteCertificate t.toDtlsTransport (lib.peerCertificate x) then
        let (t,calls) := t.extractSrtpParams lib
        (t,.verified x::calls)
      else (t,[.error])

def runTask (t : Transport ε) : Task → Transport ε × List (Call ε)
  | .setupSRTP => t.setupSRTP lib
  | .checkPending => t.checkPending lib

end Transport

/-! ### What a call leaves -/

/-- Whoever uses the connection finds it there, or asks for no more than its certificate. -/
structure Transport.Sound {ε : Type} (t : Transport ε) : Prop where
  nullCalls : ∀ c ∈ t.nullCalls, c = .peerCertificate
  inited : t.inited = true → t.ssl ≠ none
  timer : t.timer ≠ none → t.ssl ≠ none

/-- A call that tells of no step of the handshake. -/
def Call.Routine {ε : Type} : Call ε → Prop
  | .sendData _ | .error | .shutdown | .post _ => True
  | .setup .. | .started _ | .verified _ => False

/-- The transport goes on as it was, but for what OpenSSL and the timer keep. -/
structure Continues {ε : Type} (t : Transport ε) (r : Transport ε × List (Call ε)) : Prop where
  sound : r.1.Sound
  peer : r.1.toDtlsTransport = t.toDtlsTransport
  setup : r.1.setup = t.setup
  inited : r.1.inited = t.inited
  ssl : r.1.ssl = none ↔ t.ssl = none
  routine : ∀ c ∈ r.2, c.Routine

section Calls
variable {ε : Type} (lib : Ssl ε) {t : Transport ε}

theorem routine_infoCalls (infos : List Bool) : ∀ c ∈ infoCalls (ε := ε) infos, c.Routine := by
  intro c hc
  obtain ⟨done,_,hc⟩ := List.mem_flatMap.mp hc
  cases done with
  | true =>
      rcases List.mem_cons.mp hc with rfl | hc
      · trivial
      · obtain rfl := List.mem_singleton.mp hc
        trivial
  | false =>
      obtain rfl := List.mem_singleton.mp hc
      trivial

theorem continues_same (h : t.Sound) : Continues t (t,[]) :=
  ⟨h,rfl,rfl,rfl,Iff.rfl,fun _ hc => absurd hc List.not_mem_nil⟩

theorem Continues.trans {t' : Transport ε} {calls : List (Call ε)} (h : Continues t (t',calls))
    {r : Transport ε × List (Call ε)} (hr : Continues t' r) : Continues t (r.1,calls++r.2) := by
  constructor
  case sound => exact hr.sound
  case peer => exact hr.peer.trans h.peer
  case setup => exact hr.setup.trans h.setup
  case inited => exact hr.inited.trans h.inited
  case ssl => exact hr.ssl.trans h.ssl
  case routine => exact fun c hc => (List.mem_append.mp hc).elim (h.routine c) (hr.routine c)

/-- A call of OpenSSL. -/
theorem continues_called (h : t.Sound) (hssl : t.ssl ≠ none) (x : ε) {calls : List (Call ε)}
    (hcalls : ∀ c ∈ calls, c.Routine) : Continues t ({ t with ssl := some x },calls) := by
  constructor
  case sound => exact ⟨h.nullCalls,fun _ => Option.some_ne_none x,fun _ => Option.some_ne_none x⟩
  case peer => rfl
  case setup => rfl
  case inited => rfl
  case ssl => exact ⟨fun hx => absurd hx (Option.some_ne_none x),fun hx => absurd hx hssl⟩
  case routine => exact hcalls

theorem continues_trySendPendingData (h : t.Sound) (hssl : t.ssl ≠ none) :
    Continues t (t.trySendPendingData lib) := by
  unfold Transport.trySendPendingData
  cases hx : t.ssl with
  | none => exact absurd hx hssl
  | some x =>
      by_cases hpending : lib.pending x = true
      · simp only [if_pos hpending]
        apply continues_called h hssl
        intro c hc
        obtain rfl := List.mem_singleton.mp hc
        trivial
      · simp only [if_neg hpending]
        exact continues_same h

theorem continues_setTimeout (h : t.Sound) : Continues t (t.setTimeout lib,[]) := by
  unfold Transport.setTimeout
  cases htimer : t.timer with
  | none => exact continues_same h
  | some _ =>
      have hssl := h.timer (by rw [htimer]; exact Option.some_ne_none _)
      cases hx : t.ssl with
      | none => exact absurd hx hssl
      | some x =>
          cases hdelay : lib.getTimeout x with
          | none =>
              simp only [hdelay]
              exact continues_same h
          | some delay =>
              simp only [hdelay]
              refine ⟨?_,rfl,rfl,rfl,?_,fun _ hc => absurd hc List.not_mem_nil⟩
              · exact ⟨h.nullCalls,fun _ => Option.some_ne_none x,fun _ => Option.some_ne_none x⟩
              · exact ⟨fun hnone => hx.trans hnone,fun hnone => absurd hnone hssl⟩

/-- Sending what is pending, then setting the timer. -/
theorem continues_flush (h : t.Sound) (hssl : t.ssl ≠ none) :
    Continues t ((t.trySendPendingData lib).1.setTimeout lib,(t.trySendPendingData lib).2) := by
  have hsend := continues_trySendPendingData lib h hssl
  have hflush := hsend.trans (continues_setTimeout lib hsend.sound)
  rw [List.append_nil] at hflush
  exact hflush

theorem continues_checkPending (h : t.Sound) : Continues t (t.checkPending lib) := by
  unfold Transport.checkPending
  split
  · split
    · exact continues_setTimeout lib h
    · rename_i x hx
      exact continues_flush lib h (by rw [hx]; exact Option.some_ne_none x)
  · exact continues_same h

theorem continues_onTimerTimeout (h : t.Sound) : Continues t (t.onTimerTimeout lib) := by
  unfold Transport.onTimerTimeout
  by_cases hinited : t.inited = true
  · have hssl := h.inited hinited
    rw [if_pos hinited]
    cases hx : t.ssl with
    | none => exact absurd hx hssl
    | some x =>
        have hcalled := continues_called h hssl (lib.handleTimeout x).1.1
          (routine_infoCalls (lib.handleTimeout x).1.2)
        by_cases hfailed : (lib.handleTimeout x).2 = true
        · simp only [if_pos hfailed]
          exact hcalled
        · simp only [if_neg hfailed]
          exact hcalled.trans (continues_flush lib hcalled.sound (Option.some_ne_none _))
  · rw [if_neg hinited]
    exact continues_same h

theorem continues_processDataFromPeer (h : t.Sound) (hssl : t.ssl ≠ none) (data : List Byte) :
    Continues t (t.processDataFromPeer lib data) := by
  unfold Transport.processDataFromPeer
  cases hx : t.ssl with
  | none => exact absurd hx hssl
  | some x =>
      have hcalled := continues_called h hssl (lib.sslRead (lib.bioWrite x data)).1
        (routine_infoCalls (lib.sslRead (lib.bioWrite x data)).2)
      have hread := hcalled.trans (continues_flush lib hcalled.sound
        (Option.some_ne_none _))
      simp only
      split
      · rename_i hnone
        exact absurd (hread.ssl.mp hnone) hssl
      · rename_i y hy
        split
        · have hroutine : ∀ c ∈ [(.shutdown : Call ε)], c.Routine := by
            intro c hc
            obtain rfl := List.mem_singleton.mp hc
            trivial
          have hclear := continues_called hread.sound (by rw [hy]; exact Option.some_ne_none y)
            (lib.clear y) hroutine
          exact hread.trans hclear
        · exact hread

/-- `Start` has been refused. -/
structure Refused (t : Transport ε) (r : Bool × Transport ε × List (Call ε)) : Prop where
  result : r.1 = false
  calls : r.2.2 = []
  sound : r.2.1.Sound
  ssl : r.2.1.ssl = t.ssl
  inited : r.2.1.inited = t.inited
  peer : r.2.1.toDtlsTransport = t.toDtlsTransport
  setup : t.ssl ≠ none → r.2.1.setup = t.setup

/-- `Start` has begun a handshake. -/
structure Began (t : Transport ε) (r : Bool × Transport ε × List (Call ε)) : Prop where
  result : r.1 = true
  ssl : t.ssl ≠ none
  sound : r.2.1.Sound
  inited : r.2.1.inited = true
  peer : r.2.1.toDtlsTransport = t.toDtlsTransport
  calls : ∃ calls, r.2.2 = .started (r.2.1.setup = .kActive)::calls ∧ ∀ c ∈ calls, c.Routine

theorem start_spec (h : t.Sound) (setupInSdp : Text) :
    Refused t (t.start lib setupInSdp) ∨ Began t (t.start lib setupInSdp) := by
  unfold Transport.start
  cases hsetup : stringToSetup.lookup setupInSdp with
  | none => exact .inl ⟨rfl,rfl,h,rfl,rfl,rfl,fun _ => rfl⟩
  | some remoteSetup =>
      cases hrole : remoteSetup.selector with
      | none =>
          simp only [hrole]
          exact .inl ⟨rfl,rfl,h,rfl,rfl,rfl,fun _ => rfl⟩
      | some role =>
          simp only [hrole]
          have hinited := h.inited
          have htimer := h.timer
          cases hx : t.ssl with
          | none =>
              rw [hx] at hinited htimer
              exact .inl ⟨rfl,rfl,⟨h.nullCalls,hinited,htimer⟩,hx.symm,rfl,rfl,
                fun hne => absurd hx hne⟩
          | some x =>
              have hbegan (called : Called ε) : Began t (true,({ t with
                  ssl := some called.1, setup := role, inited := true
                  timer := some none } : Transport ε).setTimeout lib,
                  .started (role = .kActive)::infoCalls called.2) := by
                have hsound : ({ t with
                    ssl := some called.1, setup := role, inited := true
                    timer := some none } : Transport ε).Sound :=
                  ⟨h.nullCalls,fun _ => Option.some_ne_none _,fun _ => Option.some_ne_none _⟩
                have ht := continues_setTimeout lib hsound
                refine ⟨rfl,by rw [hx]; exact Option.some_ne_none x,ht.sound,ht.inited,ht.peer,
                  infoCalls called.2,?_,routine_infoCalls _⟩
                rw [show (Transport.setTimeout lib _).setup = role from ht.setup]
              exact .inr (hbegan _)

/-- After `Stop` there is no connection. -/
theorem stop_spec (h : t.Sound) : (t.stop lib).1.Sound ∧ (t.stop lib).1.ssl = none ∧
    (t.stop lib).1.inited = false ∧ (t.stop lib).1.toDtlsTransport = t.toDtlsTransport ∧
    ∀ c ∈ (t.stop lib).2, c.Routine := by
  unfold Transport.stop
  cases hx : t.ssl with
  | none =>
      exact ⟨⟨h.nullCalls,fun hinited => Bool.noConfusion hinited,fun hne => absurd rfl hne⟩,rfl,rfl,
        rfl,fun _ hc => absurd hc List.not_mem_nil⟩
  | some x =>
      have hidle : { t with inited := false }.Sound :=
        ⟨h.nullCalls,fun hinited => Bool.noConfusion hinited,h.timer⟩
      have hssl : t.ssl ≠ none := by
        rw [hx]
        exact Option.some_ne_none x
      have hcalled := continues_called hidle hssl (lib.shutdown x).1
        (routine_infoCalls (lib.shutdown x).2)
      have hsend := hcalled.trans (continues_trySendPendingData lib hcalled.sound
        (Option.some_ne_none _))
      refine ⟨⟨hsend.sound.nullCalls,?_,fun hne => absurd rfl hne⟩,rfl,hsend.inited,hsend.peer,
        hsend.routine⟩
      exact fun hinited => Bool.noConfusion (hinited.symm.trans hsend.inited)

/-- A null connection that is asked for its certificate. -/
theorem Transport.Sound.peerCertificate (h : t.Sound) : (t.callNull .peerCertificate).Sound where
  nullCalls := by
    intro c hc
    rcases List.mem_append.mp hc with hc | hc
    · exact h.nullCalls c hc
    · exact List.mem_singleton.mp hc
  inited := h.inited
  timer := h.timer

/-- The keys are made only from a connection whose certificate has been checked. -/
theorem setupSRTP_spec (t : Transport ε) :
    t.setupSRTP lib = (t.callNull .peerCertificate,[.error]) ∨ (t.setupSRTP lib).1 = t ∧
    ((t.setupSRTP lib).2 = [.error] ∨
      ∃ x, t.ssl = some x ∧
        checkRemoteCertificate t.toDtlsTransport (lib.peerCertificate x) = true ∧
        ((t.setupSRTP lib).2 = [.verified x] ∨
          ∃ suite localMasterKey remoteMasterKey,
            srtpParams lib (t.setup = .kActive) x = some (suite,localMasterKey,remoteMasterKey) ∧
            (t.setupSRTP lib).2 =
              [.verified x,.setup suite localMasterKey remoteMasterKey])) := by
  unfold Transport.setupSRTP
  cases hx : t.ssl with
  | none => exact .inl rfl
  | some x =>
      right
      simp only [Transport.extractSrtpParams,hx]
      split
      · rename_i hcertificate
        split
        · exact ⟨rfl,.inr ⟨x,rfl,hcertificate,.inl rfl⟩⟩
        · rename_i suite localMasterKey remoteMasterKey hparams
          exact ⟨rfl,.inr ⟨x,rfl,hcertificate,.inr ⟨suite,localMasterKey,remoteMasterKey,hparams,
            rfl⟩⟩⟩
      · exact ⟨rfl,.inl rfl⟩

end Calls

/-! ### Roles and keys -/

/-- The role that `Start` plays is the one that the answer announces. -/
theorem selector_agrees {setup : Text} {remoteSetup role : Setup}
    (hsetup : stringToSetup.lookup setup = some remoteSetup)
    (hrole : remoteSetup.selector = some role) :
    ∃ answer, setupSelector setup = some answer ∧ stringToSetup.lookup answer = some role := by
  obtain ⟨before,after,hsplit,_⟩ := List.lookup_eq_some_iff.mp hsetup
  have hmem : (setup,remoteSetup) ∈ stringToSetup := by
    rw [hsplit]
    exact List.mem_append_right before List.mem_cons_self
  simp only [stringToSetup,List.mem_cons,Prod.mk.injEq,List.not_mem_nil,or_false] at hmem
  rcases hmem with ⟨rfl,rfl⟩ | ⟨rfl,rfl⟩ | ⟨rfl,rfl⟩ <;> cases hrole
  · exact ⟨text "passive",rfl,rfl⟩
  · exact ⟨text "active",rfl,rfl⟩
  · exact ⟨text "active",rfl,rfl⟩

section Keys
variable {ε : Type} {lib : Ssl ε} {x : ε}

/-- The two ends of one handshake send with what the other one receives with. -/
theorem srtpParams_swap {y : ε} (active : Bool)
    (hprofile : lib.selectedSrtpProfile y = lib.selectedSrtpProfile x)
    (hmaterial : lib.exportKeyingMaterial y = lib.exportKeyingMaterial x) :
    srtpParams lib (!active) y = (srtpParams lib active x).map fun (suite,keys) =>
      (suite,keys.swap) := by
  unfold srtpParams
  rw [hprofile,hmaterial]
  cases lib.selectedSrtpProfile x with
  | none => rfl
  | some name =>
      simp only
      split
      · rfl
      · rw [Option.map_map]
        congr 1
        funext material
        exact congrArg (Prod.mk _) (masterKeys_swap active _ material.toList)

/-- Neither of the keys is short. -/
theorem srtpParams_length {active : Bool} {suite : CipherSuite} {keys : List Byte × List Byte}
    (h : srtpParams lib active x = some (suite,keys)) (second : Bool) :
    (if second then keys.2 else keys.1).length =
      (getSuiteKeySaltLength suite).keyLength+(getSuiteKeySaltLength suite).saltLength := by
  unfold srtpParams at h
  cases hprofile : lib.selectedSrtpProfile x with
  | none =>
      rw [hprofile] at h
      cases h
  | some name =>
      simp only [hprofile] at h
      split at h
      · cases h
      · obtain ⟨material,_,hkeys⟩ := Option.map_eq_some_iff.mp h
        obtain ⟨rfl,rfl⟩ := Prod.mk.inj hkeys
        exact masterKeys_length active second material.length_toList

end Keys

end Ylrtc.Dtls
