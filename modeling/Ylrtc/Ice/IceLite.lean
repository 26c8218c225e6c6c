import Ylrtc.Ice.StunMessage
import Ylrtc.Lib.Run

/-!
# ICE lite and the stream behind it

`IceLite::ProcessStunMessage` of `ice/ice_lite.cpp` with its observer,
`WebrtcStream` of `transport/webrtc_stream.cpp`. A datagram changes the selected
candidate as soon as it carries USE-CANDIDATE, and ends the stream as soon as it
cannot be parsed: no attribute has to be there, and the message type is not
looked at.
-/
namespace Ylrtc.Ice
open CursorParser Run Stun

structure IceLite where
  localUfrag : List Byte
  localPassword : List Byte
  remoteUfrag : List Byte
  selectedCandidate : UdpEndpoint
  oldSelectedCandidate : UdpEndpoint
  deriving DecidableEq, Repr

/-- A call on `IceLite::Observer`. -/
inductive ObserverCall where
  | stunMessageSend (data : List Byte) (ep : UdpEndpoint)
  | iceConnectionCompleted
  | iceConnectionError
  deriving DecidableEq, Repr

/-- A datagram, where it came from, and the block of the memory pool that its
response is written to. -/
structure Datagram where
  data : Region
  remoteEp : UdpEndpoint
  memory : ℕ → Byte

def IceLite.message (ice : IceLite) : StunMessage :=
  { localUfrag := ice.localUfrag, localPassword := ice.localPassword
    remoteUfrag := ice.remoteUfrag }

/-- The selection of a candidate. -/
def IceLite.select (ice : IceLite) (remoteEp : UdpEndpoint) : IceLite × List ObserverCall :=
  ({ ice with oldSelectedCandidate := ice.selectedCandidate, selectedCandidate := remoteEp },
    if ice.selectedCandidate ≠ remoteEp then [.iceConnectionCompleted] else [])

def IceLite.processStunMessage (hmac : Hmac) (ice : IceLite) (d : Datagram) :
    IceLite × List ObserverCall :=
  let parsed := parse hmac ice.message d.data
  if parsed.ok then
    let (ice,calls) :=
      if parsed.msg.hasUseCandidate then ice.select d.remoteEp else (ice,[])
    match createResponse hmac parsed.msg d.remoteEp d.memory with
    | none => (ice,calls)
    | some response => (ice,calls++[.stunMessageSend response d.remoteEp])
  else (ice,[.iceConnectionError])

/-- What the stream keeps of its connection. `dtlsStarts` counts the calls of
`DtlsTransport::Start`, `shutdowns` those of the observer. -/
structure Connection where
  selectedEndpoint : UdpEndpoint
  dtlsReady : Bool := false
  dtlsStarts : ℕ := 0
  stoped : Bool := false
  shutdowns : ℕ := 0
  deriving DecidableEq, Repr

/-- What is fixed for the stream: the DTLS transport, with the answers of its
`Start`, the socket and the room. -/
structure Environment where
  dtlsTransport : Option (ℕ → Bool)
  hasSocket : Bool
  hasObserver : Bool

structure WebrtcStream where
  iceLite : IceLite
  connection : Connection
  sent : List (List Byte × UdpEndpoint) := []
  deriving DecidableEq, Repr

variable (env : Environment)

def Connection.shutdown (c : Connection) : Connection :=
  if c.stoped then c
  else { c with stoped := true, shutdowns := if env.hasObserver then c.shutdowns+1 else c.shutdowns }

def Connection.onIceConnectionCompleted (c : Connection) (selectedCandidate : UdpEndpoint) :
    Connection :=
  let c := { c with selectedEndpoint := selectedCandidate }
  match env.dtlsTransport with
  | none => c
  | some start =>
      { c with dtlsStarts := c.dtlsStarts+1, dtlsReady := c.dtlsReady || start c.dtlsStarts }

def WebrtcStream.handle (s : WebrtcStream) : ObserverCall → WebrtcStream
  | .stunMessageSend data _ =>
      if env.hasSocket then { s with sent := s.sent++[(data,s.connection.selectedEndpoint)] } else s
  | .iceConnectionCompleted =>
      { s with connection :=
          s.connection.onIceConnectionCompleted env s.iceLite.selectedCandidate }
  | .iceConnectionError => { s with connection := s.connection.shutdown env }

/-- A datagram through `ProcessStunMessage`, and the calls that it makes. -/
def step (hmac : Hmac) (s : WebrtcStream) (d : Datagram) : WebrtcStream :=
  let (ice,calls) := s.iceLite.processStunMessage hmac d
  calls.foldl (WebrtcStream.handle env) { s with iceLite := ice }

/-- The datagram makes `OnIceConnectionCompleted` be raised. -/
def Completes (hmac : Hmac) (s : WebrtcStream) (d : Datagram) : Prop :=
  .iceConnectionCompleted ∈ (s.iceLite.processStunMessage hmac d).2

/-- The selected candidate changes, and the connection completes, for an
authentic request only; any other datagram leaves the connection alone. -/
structure Protected (hmac : Hmac) (s : WebrtcStream) (d : Datagram) : Prop where
  selected : (step env hmac s d).iceLite.selectedCandidate ≠ s.iceLite.selectedCandidate →
    Authentic hmac s.iceLite.message d.data ∧
      (step env hmac s d).iceLite.selectedCandidate = d.remoteEp
  completed : Completes hmac s d → Authentic hmac s.iceLite.message d.data
  unchanged : ¬Authentic hmac s.iceLite.message d.data →
    (step env hmac s d).iceLite.selectedCandidate = s.iceLite.selectedCandidate ∧
      (step env hmac s d).connection = s.connection

/-- Such a datagram does nothing: it is accepted without nominating another
endpoint, or refused by a stream that has ended before. -/
def Harmless (hmac : Hmac) (s : WebrtcStream) (d : Datagram) : Prop :=
  if (parse hmac s.iceLite.message d.data).ok then
    (parse hmac s.iceLite.message d.data).msg.hasUseCandidate = false ∨
      d.remoteEp = s.iceLite.selectedCandidate
  else s.connection.stoped = true

/-- A refused datagram. -/
theorem step_refused {hmac : Hmac} {s : WebrtcStream} {d : Datagram}
    (h : (parse hmac s.iceLite.message d.data).ok = false) :
    step env hmac s d = { s with connection := s.connection.shutdown env } ∧
      ¬Completes hmac s d := by
  have hprocess : s.iceLite.processStunMessage hmac d = (s.iceLite,[.iceConnectionError]) := by
    simp only [IceLite.processStunMessage,h,Bool.false_eq_true,if_false]
  constructor
  · simp only [step,hprocess,List.foldl_cons,List.foldl_nil,WebrtcStream.handle]
  · simp only [Completes,hprocess,List.mem_singleton,reduceCtorEq,not_false_eq_true]

theorem handle_response (s : WebrtcStream) (data : List Byte) (ep : UdpEndpoint) :
    (s.handle env (.stunMessageSend data ep)).iceLite = s.iceLite ∧
      (s.handle env (.stunMessageSend data ep)).connection = s.connection := by
  simp only [WebrtcStream.handle]
  split <;> exact ⟨rfl,rfl⟩

/-- The response to an accepted datagram changes nothing but what was sent. -/
theorem process_accepted {hmac : Hmac} {s : WebrtcStream} {d : Datagram}
    (h : (parse hmac s.iceLite.message d.data).ok = true) {ice : IceLite}
    {calls : List ObserverCall}
    (hselect : (if (parse hmac s.iceLite.message d.data).msg.hasUseCandidate then
      s.iceLite.select d.remoteEp else (s.iceLite,[])) = (ice,calls)) :
    (step env hmac s d).iceLite = (calls.foldl (WebrtcStream.handle env)
        { s with iceLite := ice }).iceLite ∧
      (step env hmac s d).connection = (calls.foldl (WebrtcStream.handle env)
        { s with iceLite := ice }).connection ∧
      (Completes hmac s d ↔ .iceConnectionCompleted ∈ calls) := by
  simp only [step,Completes,IceLite.processStunMessage,h,if_true,hselect]
  cases createResponse hmac (parse hmac s.iceLite.message d.data).msg d.remoteEp d.memory with
  | none => exact ⟨rfl,rfl,Iff.rfl⟩
  | some response =>
      simp only [List.foldl_append,List.foldl_cons,List.foldl_nil,List.mem_append,
        List.mem_singleton,reduceCtorEq,or_false]
      have hresponse := handle_response env
        (calls.foldl (WebrtcStream.handle env) { s with iceLite := ice }) response d.remoteEp
      exact ⟨hresponse.1,hresponse.2,trivial⟩

/-- An accepted datagram without USE-CANDIDATE. -/
theorem step_accepted {hmac : Hmac} {s : WebrtcStream} {d : Datagram}
    (h : (parse hmac s.iceLite.message d.data).ok = true)
    (hcandidate : (parse hmac s.iceLite.message d.data).msg.hasUseCandidate = false) :
    (step env hmac s d).iceLite = s.iceLite ∧ (step env hmac s d).connection = s.connection ∧
      ¬Completes hmac s d := by
  have hselect : (if (parse hmac s.iceLite.message d.data).msg.hasUseCandidate then
      s.iceLite.select d.remoteEp else (s.iceLite,[])) = (s.iceLite,[]) := by
    rw [hcandidate,if_neg Bool.false_ne_true]
  obtain ⟨hice,hconnection,hcompletes⟩ := process_accepted env h hselect
  refine ⟨hice,hconnection,?_⟩
  rw [hcompletes]
  exact List.not_mem_nil

/-- An accepted datagram with USE-CANDIDATE. -/
theorem step_nominated {hmac : Hmac} {s : WebrtcStream} {d : Datagram}
    (h : (parse hmac s.iceLite.message d.data).ok = true)
    (hcandidate : (parse hmac s.iceLite.message d.data).msg.hasUseCandidate = true) :
    (step env hmac s d).iceLite.selectedCandidate = d.remoteEp ∧
      (d.remoteEp = s.iceLite.selectedCandidate →
        (step env hmac s d).connection = s.connection ∧ ¬Completes hmac s d) := by
  have hselect : (if (parse hmac s.iceLite.message d.data).msg.hasUseCandidate then
      s.iceLite.select d.remoteEp else (s.iceLite,[])) = s.iceLite.select d.remoteEp := by
    rw [hcandidate,if_pos rfl]
  obtain ⟨hice,hconnection,hcompletes⟩ := process_accepted env h hselect
  by_cases hsame : s.iceLite.selectedCandidate = d.remoteEp
  · rw [if_neg (not_not_intro hsame)] at hice hconnection hcompletes
    refine ⟨?_,fun _ => ⟨hconnection,?_⟩⟩
    · rw [hice,List.foldl_nil]
    · rw [hcompletes]
      exact List.not_mem_nil
  · rw [if_pos hsame] at hice
    refine ⟨?_,fun heq => absurd heq.symm hsame⟩
    rw [hice,List.foldl_cons,List.foldl_nil,WebrtcStream.handle]

theorem shutdown_eq_iff (c : Connection) : c.shutdown env = c ↔ c.stoped = true := by
  unfold Connection.shutdown
  split
  · rename_i h
    exact ⟨fun _ => h,fun _ => rfl⟩
  · rename_i h
    constructor
    · intro heq
      rw [← heq]
    · intro hstoped
      exact absurd hstoped h

/-- A harmless datagram leaves candidate and connection as they were. -/
theorem unchanged_of_harmless {hmac : Hmac} {s : WebrtcStream} {d : Datagram}
    (h : Harmless hmac s d) :
    (step env hmac s d).iceLite.selectedCandidate = s.iceLite.selectedCandidate ∧
      (step env hmac s d).connection = s.connection ∧ ¬Completes hmac s d := by
  unfold Harmless at h
  split at h
  · rename_i hok
    cases hcandidate : (parse hmac s.iceLite.message d.data).msg.hasUseCandidate with
    | false =>
        obtain ⟨hice,hconnection,hcompletes⟩ := step_accepted env hok hcandidate
        exact ⟨by rw [hice],hconnection,hcompletes⟩
    | true =>
        rw [hcandidate] at h
        have hsame := h.resolve_left (by decide)
        obtain ⟨hselected,hkeeps⟩ := step_nominated env hok hcandidate
        exact ⟨hselected.trans hsame,hkeeps hsame⟩
  · rename_i hok
    obtain ⟨hstep,hcompletes⟩ := step_refused env (Bool.eq_false_iff.mpr hok)
    rw [hstep]
    exact ⟨rfl,(shutdown_eq_iff env s.connection).mpr h,hcompletes⟩

/-- Whatever is not harmless shows: the candidate changes or the stream ends. -/
theorem harmless_of_unchanged {hmac : Hmac} {s : WebrtcStream} {d : Datagram}
    (hselected : (step env hmac s d).iceLite.selectedCandidate = s.iceLite.selectedCandidate)
    (hconnection : (step env hmac s d).connection = s.connection) : Harmless hmac s d := by
  unfold Harmless
  split
  · rename_i hok
    cases hcandidate : (parse hmac s.iceLite.message d.data).msg.hasUseCandidate with
    | false => exact .inl rfl
    | true =>
        rw [(step_nominated env hok hcandidate).1] at hselected
        exact .inr hselected
  · rename_i hok
    rw [(step_refused env (Bool.eq_false_iff.mpr hok)).1] at hconnection
    exact (shutdown_eq_iff env s.connection).mp hconnection

theorem selected_eq {hmac : Hmac} {s : WebrtcStream} {d : Datagram}
    (h : (step env hmac s d).iceLite.selectedCandidate ≠ s.iceLite.selectedCandidate) :
    (step env hmac s d).iceLite.selectedCandidate = d.remoteEp := by
  cases hok : (parse hmac s.iceLite.message d.data).ok with
  | false =>
      rw [(step_refused env hok).1] at h
      exact absurd rfl h
  | true =>
      cases hcandidate : (parse hmac s.iceLite.message d.data).msg.hasUseCandidate with
      | false =>
          rw [(step_accepted env hok hcandidate).1] at h
          exact absurd rfl h
      | true => exact (step_nominated env hok hcandidate).1

/-- One datagram. -/
theorem protected_iff (hmac : Hmac) (s : WebrtcStream) (d : Datagram) :
    Protected env hmac s d ↔ Authentic hmac s.iceLite.message d.data ∨ Harmless hmac s d := by
  constructor
  · intro h
    by_cases ha : Authentic hmac s.iceLite.message d.data
    · exact .inl ha
    · obtain ⟨hselected,hconnection⟩ := h.unchanged ha
      exact .inr (harmless_of_unchanged env hselected hconnection)
  · rintro (ha | hh)
    · exact ⟨fun h => ⟨ha,selected_eq env h⟩,fun _ => ha,fun hn => absurd ha hn⟩
    · obtain ⟨hselected,hconnection,hcompletes⟩ := unchanged_of_harmless env hh
      exact ⟨fun h => absurd hselected h,fun h => absurd h hcompletes,
        fun _ => ⟨hselected,hconnection⟩⟩

/-- A run of datagrams is protected exactly when each of them is authentic or
harmless where it arrives. -/
theorem run_protected_iff (hmac : Hmac) (s : WebrtcStream) (ds : List Datagram) :
    Along (fun before d => Protected env hmac (run (step env hmac) s before) d) ds ↔
      Along (fun before d => Authentic hmac (run (step env hmac) s before).iceLite.message d.data ∨
        Harmless hmac (run (step env hmac) s before) d) ds :=
  ⟨fun h => h.mono fun _ d => (protected_iff env hmac _ d).mp,
    fun h => h.mono fun _ d => (protected_iff env hmac _ d).mpr⟩

/-- A binding request without any attribute but USE-CANDIDATE. -/
def bareRequest : Region :=
  .ofList [0,1,0,4,0x21,0x12,0xA4,0x42,0,0,0,0,0,0,0,0,0,0,0,0,0,0x25,0,0] (fun _ => 0) (by decide)

def freshStream : WebrtcStream where
  iceLite :=
    { localUfrag := [0x72,0x2F,0x73], localPassword := [0x70], remoteUfrag := [0x75]
      selectedCandidate := .v4 0 0, oldSelectedCandidate := .v4 0 0 }
  connection := { selectedEndpoint := .v4 0 0 }

/-- Its one attribute is no username. -/
theorem not_authentic_bareRequest (hmac : Hmac) (msg : StunMessage) :
    ¬Authentic hmac msg bareRequest := by
  rintro ⟨_,_,user,_,_,⟨hoffset,htype,hinside⟩,_⟩
  have hsize : bareRequest.size = 24 := rfl
  cases hoffset with
  | first => exact absurd htype (by decide)
  | next h =>
      have hle := h.le
      simp only [kStunHeaderSize,kStunAttributeHeaderSize] at hle hinside
      omega

def nomination : Datagram := ⟨bareRequest,.v4 0x0A000001 6666,fun _ => 0⟩

/-- It selects its sender, whatever the password is. -/
theorem not_run_protected : ¬∀ (env : Environment) (hmac : Hmac) (s : WebrtcStream)
    (ds : List Datagram),
      Along (fun before d => Protected env hmac (run (step env hmac) s before) d) ds := by
  intro h
  let env : Environment := ⟨none,true,true⟩
  let hmac : Hmac := fun _ _ => Vector.replicate 20 0
  have hp : Protected env hmac freshStream nomination := h env hmac freshStream [nomination] [] _ [] rfl
  have hok : (parse hmac freshStream.iceLite.message nomination.data).ok = true := by decide +kernel
  have hcandidate : (parse hmac freshStream.iceLite.message nomination.data).msg.hasUseCandidate =
      true := by decide +kernel
  have hselected := (step_nominated env hok hcandidate).1
  have hkept := (hp.unchanged (not_authentic_bareRequest hmac _)).1
  exact absurd (hselected.symm.trans hkept) (by decide)

end Ylrtc.Ice
