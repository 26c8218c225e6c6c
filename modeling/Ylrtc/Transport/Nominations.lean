import Ylrtc.Transport.WebrtcStream

/-!
# The connection as ICE sees it

A stream with its socket, DTLS and SRTP runs, as far as its candidate, its endpoint and its end
go, through steps of the stream that has nothing but ICE: one for each STUN datagram that it
takes. What that stream keeps of its candidate holds of the whole connection.
-/
namespace Ylrtc.Connection
open CursorParser Run Signaling Srtp Stun

variable {ε κ : Type} {env : Environment ε κ} {s t r : WebrtcStream ε κ}

/-! ### What is not ICE -/

/-- The candidate and the endpoint stay, and a stream that has ended stays so. -/
structure Still (s t : WebrtcStream ε κ) : Prop where
  iceLite : t.iceLite = s.iceLite
  selectedEndpoint : t.selectedEndpoint = s.selectedEndpoint
  stoped : s.stoped = true → t.stoped = true

theorem still_refl (s : WebrtcStream ε κ) : Still s s := ⟨rfl,rfl,id⟩

theorem Still.trans (h : Still s t) (hr : Still t r) : Still s r :=
  ⟨hr.iceLite.trans h.iceLite,hr.selectedEndpoint.trans h.selectedEndpoint,
    fun hs => hr.stoped (h.stoped hs)⟩

/-- Before that, something else of the stream was changed. -/
theorem Still.after {u : WebrtcStream ε κ} (h : Still u t) (hi : u.iceLite = s.iceLite)
    (he : u.selectedEndpoint = s.selectedEndpoint) (hs : s.stoped = true → u.stoped = true) :
    Still s t := .trans ⟨hi,he,hs⟩ h

theorem still_note (s : WebrtcStream ε κ) (x : Entry ε) : Still s (s.note x) := ⟨rfl,rfl,id⟩

theorem still_send (s : WebrtcStream ε κ) (payload : Payload) (message : Udp.UdpMessage) :
    Still s (s.send payload message) := by
  unfold WebrtcStream.send
  cases s.udpSocket with
  | none => exact still_refl s
  | some u =>
      dsimp only
      split <;> exact ⟨rfl,rfl,id⟩

theorem still_shutdown (s : WebrtcStream ε κ) : Still s s.shutdown := by
  unfold WebrtcStream.shutdown
  split
  · exact still_refl s
  · dsimp only
    split <;> exact ⟨rfl,rfl,fun _ => rfl⟩

theorem still_establish (s : WebrtcStream ε κ) : Still s s.establish := by
  unfold WebrtcStream.establish
  split <;> exact ⟨rfl,rfl,id⟩

theorem still_onDtlsTransportSetup (s : WebrtcStream ε κ) (suite : CipherSuite)
    (localMasterKey remoteMasterKey : List Byte) :
    Still s (s.onDtlsTransportSetup env suite localMasterKey remoteMasterKey) := by
  unfold WebrtcStream.onDtlsTransportSetup
  dsimp only
  split
  · split
    · exact (still_establish _).after rfl rfl id
    · exact (still_shutdown _).after rfl rfl id
  · exact (still_shutdown _).after rfl rfl id

theorem still_handleDtls (s : WebrtcStream ε κ) (c : Dtls.Call ε) :
    Still s (s.handleDtls env c) := by
  cases c with
  | sendData data => exact still_send s _ _
  | setup suite l r => exact still_onDtlsTransportSetup s suite l r
  | error => exact still_shutdown s
  | shutdown => exact still_shutdown s
  | post task =>
      unfold WebrtcStream.handleDtls
      dsimp only
      split <;> exact ⟨rfl,rfl,id⟩
  | started active => exact still_note s _
  | verified x => exact still_note s _

theorem still_onDtls (s : WebrtcStream ε κ) (r : Dtls.Transport ε × List (Dtls.Call ε)) :
    Still s (s.onDtls env r) := by
  obtain ⟨transport,calls⟩ := r
  have hcalls (s : WebrtcStream ε κ) : Still s (calls.foldl (WebrtcStream.handleDtls env) s) := by
    induction calls generalizing s with
    | nil => exact still_refl s
    | cons c calls ih => exact (still_handleDtls s c).trans (ih _)
  exact (hcalls _).after rfl rfl id

theorem still_received (s : WebrtcStream ε κ) (kind : Media)
    (r : SrtpSession κ × Option (Policy × List Byte)) : Still s (s.received kind r) := by
  unfold WebrtcStream.received
  rcases r with ⟨session,_ | ⟨policy,data⟩⟩ <;> exact ⟨rfl,rfl,id⟩

theorem still_receiveMedia (s : WebrtcStream ε κ) (kind : Media) (data : List Byte) :
    Still s (s.receiveMedia env kind data) := by
  unfold WebrtcStream.receiveMedia
  split
  · exact still_received s kind _
  · exact still_refl s

theorem still_receiveDataFromProxy (s : WebrtcStream ε κ) (listens : Bool) (d : Ice.Datagram) :
    Still s (s.receiveDataFromProxy listens d) := by
  unfold WebrtcStream.receiveDataFromProxy
  cases s.udpSocket with
  | some u => exact ⟨rfl,rfl,id⟩
  | none =>
      dsimp only
      split <;> exact ⟨rfl,rfl,id⟩

theorem still_sent (s : WebrtcStream ε κ) (kind : Media)
    (r : SrtpSession κ × Option (Policy × List Byte)) : Still s (s.sent kind r) := by
  unfold WebrtcStream.sent
  rcases r with ⟨session,_ | ⟨policy,data⟩⟩
  · exact ⟨rfl,rfl,id⟩
  · exact (still_send _ _ _).after rfl rfl id

theorem still_sendMedia (s : WebrtcStream ε κ) (kind : Media) (data : List Byte) :
    Still s (s.sendMedia env kind data) := by
  unfold WebrtcStream.sendMedia
  split
  · exact still_sent s kind _
  · exact still_refl s

theorem still_stop (s : WebrtcStream ε κ) : Still s (s.stop env) := by
  unfold WebrtcStream.stop
  split
  · exact still_refl s
  · exact (still_onDtls s _).trans (((still_shutdown _).trans (still_note _ _)).after rfl rfl id)

/-! ### ICE -/

/-- The stream has the candidate, the endpoint and the end of the stream that ICE sees. -/
structure Refines (s : WebrtcStream ε κ) (t : Ice.WebrtcStream) : Prop where
  iceLite : s.iceLite = t.iceLite
  selectedEndpoint : s.selectedEndpoint = t.connection.selectedEndpoint
  stoped : t.connection.stoped = true → s.stoped = true

theorem Refines.still {i : Ice.WebrtcStream} (h : Refines s i) (ht : Still s t) :
    Refines t i :=
  ⟨ht.iceLite.trans h.iceLite,ht.selectedEndpoint.trans h.selectedEndpoint,
    fun hs => ht.stoped (h.stoped hs)⟩

section Ice
variable {i : Ice.WebrtcStream} (ienv : Ice.Environment)

theorem refines_handleIce (h : Refines s i) (c : Ice.ObserverCall) :
    Refines (s.handleIce env c) (i.handle ienv c) := by
  cases c with
  | stunMessageSend data ep =>
      have hi := Ice.handle_response ienv i data ep
      refine Refines.still ⟨h.iceLite.trans hi.1.symm,?_,?_⟩ (still_send s _ _)
      · rw [hi.2]
        exact h.selectedEndpoint
      · rw [hi.2]
        exact h.stoped
  | iceConnectionCompleted =>
      have hi : (i.handle ienv .iceConnectionCompleted).iceLite = i.iceLite ∧
          (i.handle ienv .iceConnectionCompleted).connection.selectedEndpoint =
            i.iceLite.selectedCandidate ∧
          (i.handle ienv .iceConnectionCompleted).connection.stoped = i.connection.stoped := by
        rw [Ice.WebrtcStream.handle,Ice.Connection.onIceConnectionCompleted]
        cases ienv.dtlsTransport <;> exact ⟨rfl,rfl,rfl⟩
      have hn : Refines ({ s with selectedEndpoint := s.iceLite.selectedCandidate }.note
          (.nominated s.iceLite.selectedCandidate)) (i.handle ienv .iceConnectionCompleted) := by
        refine ⟨h.iceLite.trans hi.1.symm,?_,fun hs => h.stoped (hi.2.2 ▸ hs)⟩
        rw [hi.2.1,← h.iceLite]
        rfl
      unfold WebrtcStream.handleIce WebrtcStream.onIceConnectionCompleted
      dsimp only
      split
      · exact hn.still ((still_onDtls _ _).trans ⟨rfl,rfl,id⟩)
      · exact hn.still (still_onDtls _ _)
  | iceConnectionError =>
      have hs : s.shutdown.stoped = true := by
        unfold WebrtcStream.shutdown
        split
        · assumption
        · dsimp only
          split <;> rfl
      refine Refines.still (t := s.shutdown) ?_ (still_refl _)
      have hstill := still_shutdown s
      have hi : (i.connection.shutdown ienv).selectedEndpoint = i.connection.selectedEndpoint := by
        unfold Ice.Connection.shutdown
        split <;> rfl
      exact ⟨hstill.iceLite.trans h.iceLite,
        (hstill.selectedEndpoint.trans h.selectedEndpoint).trans hi.symm,fun _ => hs⟩

/-- A STUN datagram is a step of both. -/
theorem refines_processStunMessage (h : Refines s i) (d : Ice.Datagram) :
    Refines (s.processStunMessage env d) (Ice.step ienv env.hmac i d) := by
  have hcalls (calls : List Ice.ObserverCall) {s : WebrtcStream ε κ} {i : Ice.WebrtcStream}
      (h : Refines s i) : Refines (calls.foldl (WebrtcStream.handleIce env) s)
        (calls.foldl (Ice.WebrtcStream.handle ienv) i) := by
    induction calls generalizing s i with
    | nil => exact h
    | cons c calls ih => exact ih (refines_handleIce ienv h c)
  unfold WebrtcStream.processStunMessage Ice.step
  rw [h.iceLite]
  exact hcalls _ ⟨rfl,h.selectedEndpoint,h.stoped⟩

theorem refines_onUdpSocketDataReceive (h : Refines s i) (d : Ice.Datagram) :
    Refines (s.onUdpSocketDataReceive env d)
      (run (Ice.step ienv env.hmac) i (if isStun d.data then [d] else [])) := by
  unfold WebrtcStream.onUdpSocketDataReceive
  split
  · exact refines_processStunMessage ienv h d
  split
  · split
    · exact h.still (still_onDtls s _)
    · exact h
  split
  · exact h.still (still_receiveMedia s _ _)
  split
  · exact h.still (still_receiveMedia s _ _)
  · exact h

end Ice

/-! ### Runs -/

/-- The STUN datagram that an event makes the stream take. -/
def stunOf (s : WebrtcStream ε κ) : Event → List Ice.Datagram
  | .runTask =>
      match s.posted with
      | .receive d::_ => if isStun d.data then [d] else []
      | _ => []
  | .handleReceive ec d =>
      match s.udpSocket with
      | none => []
      | some u =>
          if u.receiving = 0 then []
          else if u.closed = true ∨ ec = .other then []
          else if isStun d.data then [d] else []
  | _ => []

/-- The STUN datagrams of a run, in the order in which the stream takes them. -/
def stunTaken (env : Environment ε κ) (s : WebrtcStream ε κ) : List Event → List Ice.Datagram
  | [] => []
  | e::es => stunOf s e++stunTaken env (step env s e) es

theorem refines_handleReceive {i : Ice.WebrtcStream} (ienv : Ice.Environment) (h : Refines s i)
    (u : Udp.UdpSocket) (ec : Udp.ReceiveError) (d : Ice.Datagram) :
    Refines (s.handleReceive env u ec d) (run (Ice.step ienv env.hmac) i
      (if u.closed = true ∨ ec = .other then [] else if isStun d.data then [d] else [])) := by
  unfold WebrtcStream.handleReceive
  by_cases hclosed : u.closed = true
  · rw [if_pos hclosed,if_pos (.inl hclosed)]
    exact h.still ⟨rfl,rfl,id⟩
  rw [if_neg hclosed]
  have htaken (v : Option Udp.UdpSocket) : Refines
      ({ s with udpSocket := v }.onUdpSocketDataReceive env d)
      (run (Ice.step ienv env.hmac) i (if isStun d.data then [d] else [])) := by
    have hv : Refines { s with udpSocket := v } i := h.still ⟨rfl,rfl,id⟩
    exact refines_onUdpSocketDataReceive ienv hv d
  cases ec with
  | none =>
      rw [if_neg (by simp [hclosed])]
      exact (htaken _).still ⟨rfl,rfl,id⟩
  | messageSize =>
      rw [if_neg (by simp [hclosed])]
      exact (htaken _).still ⟨rfl,rfl,id⟩
  | other =>
      rw [if_pos (.inr rfl)]
      exact h.still ((still_shutdown _).after rfl rfl id)

/-- One event. -/
theorem refines_step (env : Environment ε κ) {i : Ice.WebrtcStream} (ienv : Ice.Environment)
    (h : Refines s i) (e : Event) :
    Refines (step env s e) (run (Ice.step ienv env.hmac) i (stunOf s e)) := by
  cases e with
  | proxy listens d =>
      unfold step
      dsimp only
      split
      · exact h.still (still_receiveDataFromProxy s listens d)
      · exact h
  | runTask =>
      unfold step stunOf
      dsimp only
      rcases s.posted with _ | ⟨task,posted⟩
      · exact h
      · have hs : Refines { s with posted := posted } i := h.still ⟨rfl,rfl,id⟩
        cases task with
        | receive d => exact refines_onUdpSocketDataReceive ienv hs d
        | dtls task => exact hs.still (still_onDtls _ _)
        | stop => exact hs.still (still_stop _)
  | timeout => exact h.still (still_onDtls s _)
  | handSend ec =>
      unfold step
      dsimp only
      cases s.udpSocket with
      | none => exact h
      | some u =>
          dsimp only
          split
          · exact h.still ((still_shutdown _).after rfl rfl id)
          · exact h.still ⟨rfl,rfl,id⟩
  | handleReceive ec d =>
      unfold step stunOf
      dsimp only
      cases s.udpSocket with
      | none => exact h
      | some u =>
          dsimp only
          split
          · exact h
          · exact refines_handleReceive ienv h _ ec d
  | handleConnected error =>
      unfold step
      dsimp only
      cases s.udpSocket with
      | none => exact h
      | some u =>
          dsimp only
          split
          · exact h.still ((still_shutdown _).after rfl rfl id)
          · exact h.still ⟨rfl,rfl,id⟩
  | sendRtp data => exact h.still (still_sendMedia s _ _)
  | sendRtcp serialized =>
      cases serialized with
      | none => exact h
      | some data => exact h.still (still_sendMedia s _ _)
  | stop => exact h.still ⟨rfl,rfl,id⟩
  | observerGone => exact h.still ⟨rfl,rfl,id⟩

/-- A run of the connection has the candidate and the endpoint of the run of the stream that
ICE sees, over the STUN datagrams that were taken; and it has ended if that stream has. -/
theorem refines_run {i : Ice.WebrtcStream} (ienv : Ice.Environment) (h : Refines s i)
    (es : List Event) : Refines (run (step env) s es)
      (run (Ice.step ienv env.hmac) i (stunTaken env s es)) := by
  induction es generalizing s i with
  | nil => exact h
  | cons e es ih =>
      have hstep := ih (refines_step env ienv h e)
      have happend : run (Ice.step ienv env.hmac) i (stunTaken env s (e::es)) =
          run (Ice.step ienv env.hmac) (run (Ice.step ienv env.hmac) i (stunOf s e))
            (stunTaken env (step env s e) es) := List.foldl_append
      rw [happend]
      exact hstep

theorem stunOf_eq (s : WebrtcStream ε κ) (e : Event) : stunOf s e = [] ∨ ∃ d, stunOf s e = [d] := by
  have htaken (d : Ice.Datagram) : (if isStun d.data then [d] else []) = [] ∨
      ∃ d', (if isStun d.data then [d] else []) = [d'] := by
    split
    · exact .inr ⟨d,rfl⟩
    · exact .inl rfl
  unfold stunOf
  split
  · split
    · exact htaken _
    · exact .inl rfl
  · split
    · exact .inl rfl
    · split
      · exact .inl rfl
      split
      · exact .inl rfl
      · exact htaken _
  · exact .inl rfl

/-- The stream as ICE sees it. -/
def seen (s : WebrtcStream ε κ) : Ice.WebrtcStream where
  iceLite := s.iceLite
  connection := { selectedEndpoint := s.selectedEndpoint, stoped := s.stoped }

/-- What changes the candidate of a connection, whatever else happens to it, is a STUN datagram
that ICE does not take for harmless. -/
theorem step_selectedCandidate (env : Environment ε κ) (s : WebrtcStream ε κ) (e : Event)
    (h : (step env s e).iceLite.selectedCandidate ≠ s.iceLite.selectedCandidate) :
    ∃ d, stunOf s e = [d] ∧ ¬ Ice.Harmless env.hmac (seen s) d ∧
      (step env s e).iceLite.selectedCandidate = d.remoteEp := by
  let ienv : Ice.Environment := ⟨none,true,true⟩
  have hseen : Refines s (seen s) := ⟨rfl,rfl,id⟩
  have hstep := (refines_step env ienv hseen e).iceLite
  rcases stunOf_eq s e with hnone | ⟨d,hd⟩
  · rw [hnone] at hstep
    exact absurd (congrArg Ice.IceLite.selectedCandidate hstep) h
  · rw [hd,run,List.foldl_cons,List.foldl_nil] at hstep
    rw [hstep] at h ⊢
    refine ⟨d,hd,fun hharmless => ?_,Ice.selected_eq ienv h⟩
    exact h (Ice.unchanged_of_harmless ienv hharmless).1

end Ylrtc.Connection
