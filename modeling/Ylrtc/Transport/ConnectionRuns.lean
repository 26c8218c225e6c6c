import Ylrtc.Transport.ConnectionLog

/-!
# What the connection of a stream rests on

Each entry of the log is justified by the entries before it, in every order of events and
whatever OpenSSL and libsrtp answer. What comes in by the proxy is STUN, so that DTLS is
handled only while the socket of the stream is open, and that is until it stops.
-/
namespace Ylrtc.Connection
open CursorParser Run Srtp Stun

variable {ε κ : Type} {env : Environment ε κ} {first : UdpEndpoint} {peer : Dtls.DtlsTransport}
  {n : ℕ} {stopping : Prop} {s : WebrtcStream ε κ}

/-! ### The keys -/

theorem Core.establish (h : Core env first peer n stopping s)
    (hsetup : ∃ suite l r, .setup suite l r ∈ s.log) :
    Core env first peer n stopping s.establish := by
  have hestablish {t : WebrtcStream ε κ} (ht : Core env first peer n stopping t)
      (hmem : ∃ suite l r, .setup suite l r ∈ t.log) :
      Core env first peer n stopping ({ t with connectionEstablished := true }.note .established) := by
    have hnote := ht.note (x := .established) trivial hmem
    exact { hnote with
      established := fun _ => List.mem_append_right _ (List.mem_singleton.mpr rfl) }
  unfold WebrtcStream.establish
  split
  · obtain ⟨suite,l,r,hmem⟩ := hsetup
    exact hestablish (h.note (x := .connected) trivial ⟨suite,l,r,hmem⟩)
      ⟨suite,l,r,List.mem_append_left _ hmem⟩
  · exact hestablish h hsetup

/-- Both sessions get the keys of the setup that has just been noted. -/
theorem Core.onDtlsTransportSetup (h : Core env first peer n stopping s) {suite : CipherSuite}
    {l r : List Byte} (hx : Justified env first peer s.log (.setup suite l r))
    (hcount : s.log.countP Entry.isSetup+s.posted.countP Task.isSetupSRTP+1 ≤
      s.log.countP Entry.isHandshakeDone) :
    Core env first peer n stopping (s.onDtlsTransportSetup env suite l r) := by
  have hmem : .setup suite l r ∈ (s.note (.setup suite l r)).log :=
    List.mem_append_right _ (List.mem_singleton.mpr rfl)
  have hnote : Core env first peer n stopping (s.note (.setup suite l r)) := by
    apply h.appendUnsent hx rfl
    case hnominated => rintro ep ⟨⟩
    case hstarted => rintro active ⟨⟩
    case hstoped => exact id
    case hended => rintro ⟨⟩
    case hshut => rintro ⟨⟩
    case hsetup => exact fun _ => hcount
  unfold WebrtcStream.onDtlsTransportSetup
  generalize s.note (.setup suite l r) = t at hmem hnote ⊢
  have hsend : Core env first peer n stopping { t with
      sendSrtpSession := (t.sendSrtpSession.init env.srtp false suite l).1 } :=
    { hnote with
      sending := hnote.sending.init fun p hp => ⟨suite,l,r,hmem,hp⟩ }
  have hreceive : Core env first peer n stopping { t with
      sendSrtpSession := (t.sendSrtpSession.init env.srtp false suite l).1
      recvSrtpSession := (t.recvSrtpSession.init env.srtp true suite r).1 } :=
    { hsend with
      receiving := hnote.receiving.init fun p hp => ⟨suite,l,r,hmem,hp⟩ }
  simp only
  split
  · split
    · exact hreceive.establish ⟨suite,l,r,hmem⟩
    · exact hreceive.shutdown
  · exact hsend.shutdown

/-- A connection that is gone is asked for its certificate. -/
theorem Core.peerCertificate (h : Core env first peer n stopping s) :
    Core env first peer n stopping
      { s with dtlsTransport := s.dtlsTransport.callNull .peerCertificate } :=
  { h with sound := h.sound.peerCertificate }

/-- `SetupSRTP`, for the end of one handshake. -/
theorem Core.setupSRTP (h : Core env first peer n stopping s)
    (hengaged : s.dtlsTransport.inited = true ∨ s.dtlsTransport.ssl = none)
    (hcount : s.log.countP Entry.isSetup+s.posted.countP Task.isSetupSRTP+1 ≤
      s.log.countP Entry.isHandshakeDone) :
    Core env first peer n stopping (s.onDtls env (s.dtlsTransport.setupSRTP env.ssl)) := by
  rw [WebrtcStream.onDtls]
  rcases Dtls.setupSRTP_spec env.ssl s.dtlsTransport with hnull | ⟨hsame,hcalls⟩
  · rw [hnull]
    exact h.peerCertificate.shutdown
  rw [hsame]
  rcases hcalls with hcalls | ⟨x,hx,hcertificate,hcalls⟩
  · rw [hcalls]
    exact h.shutdown
  · have hinited := hengaged.resolve_right (by rw [hx]; exact Option.some_ne_none x)
    have hdone : .handshakeDone ∈ s.log := by
      obtain ⟨y,hy,hdone⟩ := List.countP_pos_iff.mp (show 0 < s.log.countP Entry.isHandshakeDone by
        omega)
      cases y with
      | handshakeDone => exact hy
      | _ => exact Bool.noConfusion hdone
    rw [h.peer] at hcertificate
    have hverified := h.note (x := .verified x) trivial ⟨hdone,hcertificate⟩
    rcases hcalls with hcalls | ⟨suite,l,r,hparams,hcalls⟩
    · rw [hcalls]
      exact hverified
    · rw [hcalls]
      apply hverified.onDtlsTransportSetup
      · exact ⟨x,_,List.getLast?_concat,List.mem_append_left _ (h.role hinited),hparams⟩
      · show (s.log++[Entry.verified x]).countP Entry.isSetup+s.posted.countP Task.isSetupSRTP+1 ≤
          (s.log++[Entry.verified x]).countP Entry.isHandshakeDone
        rw [List.countP_append,List.countP_append]
        exact hcount

/-! ### Callbacks of ICE -/

/-- A nomination selects an endpoint. -/
theorem Core.nominate (h : Core env first peer n stopping s) (ep : UdpEndpoint) :
    Core env first peer n stopping ({ s with selectedEndpoint := ep }.note (.nominated ep)) := by
  apply h.append (x := .nominated ep) trivial
  case hep => exact (nominee_nominated ep).symm
  case hstoped => exact id
  case hu => exact fun v hv => (h.socket v hv).unsent rfl
  case hkept => exact fun v hv w hw hclosed => Option.some.inj (hv.symm.trans hw) ▸ hclosed
  case hnone => exact fun hnone => ⟨hnone,rfl⟩
  case hstarted => rintro active ⟨⟩
  case hended => rintro ⟨⟩
  case hshut => rintro ⟨⟩
  case hsetup => rintro ⟨⟩

/-- A handshake that does not start. -/
theorem Core.refused (h : Core env first peer n stopping s)
    {r : Bool × Dtls.Transport ε × List (Dtls.Call ε)} (hr : Dtls.Refused s.dtlsTransport r) :
    Core env first peer n stopping { s with dtlsTransport := r.2.1 } := by
  refine { h with
    sound := hr.sound, peer := hr.peer.trans h.peer, role := ?_, engaged := ?_
    alive := fun hnull => h.alive (hr.ssl.symm.trans hnull)
    ended := fun hstop => ⟨(h.ended hstop).1,hr.ssl.trans (h.ended hstop).2⟩ }
  · intro hinited
    have hold := hr.inited.symm.trans hinited
    show .started (r.2.1.setup = .kActive) ∈ s.log
    rw [hr.setup (h.sound.inited hold)]
    exact h.role hold
  · exact fun hstarted => (h.engaged hstarted).imp hr.inited.trans hr.ssl.trans

/-- A handshake that starts, after a nomination. -/
theorem Core.began (h : Core env first peer n stopping s) {ep : UdpEndpoint}
    (hep : .nominated ep ∈ s.log) (hsocket : s.udpSocket ≠ none)
    {r : Bool × Dtls.Transport ε × List (Dtls.Call ε)} (hr : Dtls.Began s.dtlsTransport r) :
    Core env first peer n stopping
      ({ s with dtlsTransport := r.2.1 }.note (.started (r.2.1.setup = Dtls.Setup.kActive))) := by
  have hssl := hr.sound.inited hr.inited
  apply h.appendWith
  case hx => exact ⟨ep,hep⟩
  case hsound => exact hr.sound
  case hpeer => exact hr.peer.trans h.peer
  case hrole => exact fun _ => List.mem_append_right _ (List.mem_singleton.mpr rfl)
  case hengaged => exact fun _ => .inl hr.inited
  case hssl => exact ⟨fun hnull => absurd hnull hssl,fun hnull => absurd hnull hr.ssl⟩
  case hep => rw [nominee_append (by rintro ep ⟨⟩),h.selected]
  case hstoped => exact id
  case hu => exact fun v hv => (h.socket v hv).unsent rfl
  case hkept => exact fun v hv w hw hclosed => Option.some.inj (hv.symm.trans hw) ▸ hclosed
  case hnone => exact fun hnone => absurd hnone hsocket
  case hstarted => exact fun _ _ => ⟨hr.inited,hsocket⟩
  case hended => rintro ⟨⟩
  case hshut => rintro ⟨⟩
  case hsetup => rintro ⟨⟩

theorem Core.onIceConnectionCompleted (h : Core env first peer n stopping s)
    (hsocket : s.udpSocket ≠ none) :
    Core env first peer n stopping (s.onIceConnectionCompleted env) ∧
      (s.onIceConnectionCompleted env).udpSocket ≠ none := by
  have hnominated := h.nominate s.iceLite.selectedCandidate
  have hmem : .nominated s.iceLite.selectedCandidate ∈
      s.log++[.nominated s.iceLite.selectedCandidate] :=
    List.mem_append_right _ (List.mem_singleton.mpr rfl)
  unfold WebrtcStream.onIceConnectionCompleted
  generalize ht : { s with selectedEndpoint := s.iceLite.selectedCandidate }.note
    (.nominated s.iceLite.selectedCandidate) = t at hnominated ⊢
  have hopen : t.udpSocket ≠ none := ht ▸ hsocket
  have hlog : .nominated s.iceLite.selectedCandidate ∈ t.log := ht ▸ hmem
  simp only [WebrtcStream.onDtls]
  cases Dtls.start_spec env.ssl hnominated.sound t.remoteDtlsSetup with
  | inl hr =>
      rw [hr.result,hr.calls,if_neg Bool.false_ne_true,List.foldl_nil]
      exact ⟨hnominated.refused hr,hopen⟩
  | inr hr =>
      obtain ⟨calls,hcalls,hroutine⟩ := hr.calls
      have hstop : .stopped ∉ t.log := fun hmem => hr.ssl (hnominated.ended hmem).2
      have hfold := (hnominated.began hlog hopen hr).handleCalls
        (fun hmem => hstop ((mem_append_ne (by rintro ⟨⟩)).mp hmem)) (.inl hr.inited) hroutine
      have hstarted := hfold.2.log.subset (List.mem_append_right _ (List.mem_singleton.mpr rfl))
      rw [hr.result,hcalls,if_pos rfl,List.foldl_cons]
      exact ⟨{ hfold.1 with ready := fun _ => ⟨_,hstarted⟩ },hfold.2.socket hopen⟩

/-- All that a datagram of STUN sets off. -/
theorem Core.processStunMessage (h : Core env first peer n stopping s)
    (hsocket : s.udpSocket ≠ none) (d : Ice.Datagram) :
    Core env first peer n stopping (s.processStunMessage env d) := by
  have hcalls (calls : List Ice.ObserverCall) {t : WebrtcStream ε κ}
      (ht : Core env first peer n stopping t) (hopen : t.udpSocket ≠ none) :
      Core env first peer n stopping (calls.foldl (WebrtcStream.handleIce env) t) := by
    induction calls generalizing t with
    | nil => exact ht
    | cons c calls ih =>
        cases c with
        | stunMessageSend data ep =>
            exact ih (ht.send fun _ _ _ => ⟨ht.selected,trivial⟩)
              ((grows_send t _ _).socket hopen)
        | iceConnectionCompleted =>
            have hnext := ht.onIceConnectionCompleted hopen
            exact ih hnext.1 hnext.2
        | iceConnectionError => exact ih ht.shutdown ((grows_shutdown t).socket hopen)
  unfold WebrtcStream.processStunMessage
  apply hcalls
  · exact { h with }
  · exact hsocket

/-! ### Datagrams -/

theorem Core.received (h : Core env first peer n stopping s)
    (hestablished : s.connectionEstablished = true) {kind : Media}
    {r : SrtpSession κ × Option (Policy × List Byte)}
    (hr : r.1.Under (Keyed true s.log) ∧ ∀ p data, r.2 = some (p,data) → Keyed true s.log p) :
    Core env first peer n stopping (s.received kind r) := by
  have ht : Core env first peer n stopping { s with recvSrtpSession := r.1 } :=
    { h with receiving := hr.1 }
  unfold WebrtcStream.received
  cases hout : r.2 with
  | none => exact ht
  | some q => exact ht.note trivial ⟨h.established hestablished,hr.2 q.1 q.2 hout⟩

/-- Media comes through a session whose key is that of a setup. -/
theorem Core.receiveMedia (h : Core env first peer n stopping s) (kind : Media)
    (data : List Byte) : Core env first peer n stopping (s.receiveMedia env kind data) := by
  unfold WebrtcStream.receiveMedia
  split
  · rename_i hestablished
    cases kind with
    | rtp => exact h.received hestablished (SrtpSession.through_spec h.receiving _ _)
    | rtcp => exact h.received hestablished (SrtpSession.through_spec h.receiving _ _)
  · exact h

/-- What is not STUN comes from an open socket, so that the transport has not been stopped. -/
theorem Core.onUdpSocketDataReceive (h : Core env first peer n False s) {d : Ice.Datagram}
    (hsocket : s.udpSocket ≠ none)
    (hopen : isStun d.data = false → ∀ u, s.udpSocket = some u → u.closed = false) :
    Core env first peer n False (s.onUdpSocketDataReceive env d) := by
  unfold WebrtcStream.onUdpSocketDataReceive
  by_cases hstun : isStun d.data = true
  · rw [if_pos hstun]
    exact h.processStunMessage hsocket d
  rw [if_neg hstun]
  by_cases hdtls : isDtls d.data = true
  · rw [if_pos hdtls]
    by_cases hready : s.dtlsReady = true
    · have hstarted := h.ready hready
      have hnull : s.dtlsTransport.ssl ≠ none := by
        intro hnull
        obtain ⟨u,hu⟩ := Option.ne_none_iff_exists'.mp hsocket
        have hstop := (h.alive hnull).resolve_right id
        exact Bool.noConfusion ((h.closed hstop hstarted u hu).symm.trans
          (hopen (Bool.eq_false_iff.mpr hstun) u hu))
      rw [if_pos hready]
      exact h.onDtls (Dtls.continues_processDataFromPeer env.ssl h.sound hnull _)
        fun _ => (h.engaged (.inl hstarted)).resolve_right hnull
    · rw [if_neg hready]
      exact h
  rw [if_neg hdtls]
  split
  · exact h.receiveMedia .rtcp _
  · split
    · exact h.receiveMedia .rtp _
    · exact h

/-- The socket goes on, having taken nothing. -/
theorem Core.withSocket {m : ℕ} (h : Core env first peer n stopping s) {u v : Udp.UdpSocket}
    (hu : s.udpSocket = some u)
    (hkeeps : Udp.Keeps (fun accepted queue => queue.Writing accepted) m v)
    (haccepted : v.accepted = u.accepted) (hclosed : u.closed = true → v.closed = true) :
    Core env first peer m stopping { s with udpSocket := some v } := by
  refine { h with
    opened := fun _ => Option.some_ne_none v
    queued := fun d hd => ⟨(h.queued d hd).1,Option.some_ne_none v⟩
    closed := ?_, socket := ?_, silent := fun hnone => absurd hnone (Option.some_ne_none v) }
  · intro hstop hstarted w hw
    obtain rfl := Option.some.inj hw
    exact hclosed (h.closed hstop hstarted u hu)
  · intro w hw
    obtain rfl := Option.some.inj hw
    exact ⟨hkeeps,haccepted.trans (h.socket u hu).2⟩

/-- One more datagram is waited for. -/
theorem Core.startReceive (h : Core env first peer 0 stopping s) :
    Core env first peer 1 stopping
      { s with udpSocket := s.udpSocket.map Udp.UdpSocket.startReceive } := by
  cases hu : s.udpSocket with
  | none =>
      refine { h with
        opened := fun hstarted => absurd hu (h.opened hstarted)
        queued := fun d hd => absurd hu (h.queued d hd).2
        closed := ?_, socket := ?_, silent := fun _ => h.silent hu }
      · intro hstop hstarted w hw
        cases hw
      · intro w hw
        cases hw
  | some u =>
      have hstart := Udp.inv_startReceive (h.socket u hu).1
      apply h.withSocket hu hstart
      · unfold Udp.UdpSocket.startReceive
        split <;> rfl
      · intro hclosed
        rwa [Udp.UdpSocket.startReceive,if_pos hclosed]

theorem Core.handleReceive (h : Core env first peer 1 False s) {u v : Udp.UdpSocket}
    (hv : s.udpSocket = some v) (hunread : Udp.Unread u) (haccepted : u.accepted = v.accepted)
    (hclosed : u.closed = v.closed) (ec : Udp.ReceiveError) (d : Ice.Datagram) :
    Core env first peer 1 False (s.handleReceive env u ec d) := by
  have hkept : v.closed = true → u.closed = true := hclosed.trans
  unfold WebrtcStream.handleReceive
  by_cases hended : u.closed = true
  · rw [if_pos hended]
    exact h.withSocket hv (Udp.inv_of_unread hunread) haccepted hkept
  · rw [if_neg hended]
    have hreceived := h.withSocket hv (Udp.keeps_onUdpSocketDataReceive WriteQueue.admits_writing
      hunread (dataOf d) d.remoteEp (some [])) haccepted hkept
    have hdata := hreceived.onUdpSocketDataReceive (d := d) (Option.some_ne_none _)
      fun _ w hw => Option.some.inj hw ▸ Bool.eq_false_iff.mpr hended
    cases ec with
    | none => exact hdata.startReceive
    | messageSize => exact hdata.startReceive
    | other =>
        apply Core.shutdown
        exact h.withSocket hv (Udp.keeps_onUdpSocketError WriteQueue.admits_writing
          (Udp.inv_of_unread hunread) (some [])) haccepted hkept

/-! ### Calls from outside -/

/-- Whatever else is posted to the thread. -/
theorem Core.enqueue (h : Core env first peer n stopping s) {task : Task}
    (hdtls : ∀ t, task ≠ .dtls t)
    (hreceive : ∀ d, task = .receive d → isStun d.data = true ∧ s.udpSocket ≠ none) :
    Core env first peer n stopping { s with posted := s.posted++[task] } := by
  refine { h with
    engaged := fun hstarted => h.engaged (hstarted.imp_right ?_), queued := ?_, setups := ?_ }
  · intro hmem
    rcases List.mem_append.mp hmem with hmem | hmem
    · exact hmem
    · exact absurd (List.mem_singleton.mp hmem).symm (hdtls _)
  · intro d hd
    rcases List.mem_append.mp hd with hd | hd
    · exact h.queued d hd
    · exact hreceive d (List.mem_singleton.mp hd).symm
  · have hcount := h.setups
    show _+(s.posted++[task]).countP Task.isSetupSRTP ≤ _
    rw [List.countP_append,List.countP_singleton,if_neg]
    · exact hcount
    · cases task with
      | dtls t => exact absurd rfl (hdtls t)
      | _ => exact Bool.false_ne_true

theorem Core.receiveDataFromProxy (h : Core env first peer 1 stopping s) (listens : Bool)
    {d : Ice.Datagram} (hd : isStun d.data = true) :
    Core env first peer 1 stopping (s.receiveDataFromProxy listens d) := by
  have hpost {t : WebrtcStream ε κ} (ht : Core env first peer 1 stopping t)
      (hsocket : t.udpSocket ≠ none) :
      Core env first peer 1 stopping { t with posted := t.posted++[.receive d] } := by
    apply ht.enqueue
    · rintro t ⟨⟩
    · rintro d ⟨⟩
      exact ⟨hd,hsocket⟩
  unfold WebrtcStream.receiveDataFromProxy
  cases hu : s.udpSocket with
  | some u =>
      have hposted := hpost h (by rw [hu]; exact Option.some_ne_none u)
      rw [hu] at hposted
      exact hposted
  | none =>
      cases listens with
      | false => exact h
      | true =>
          have hfresh : Core env first peer 1 stopping { s with
              udpSocket := some (Udp.opened true) } := by
            refine { h with
              opened := fun _ => Option.some_ne_none _
              closed := fun _ hstarted => absurd hu (h.opened hstarted)
              queued := fun d hd => absurd hu (h.queued d hd).2
              socket := ?_, silent := fun hnone => absurd hnone (Option.some_ne_none _) }
            intro w hw
            obtain rfl := Option.some.inj hw
            exact ⟨Udp.inv_opened true,(h.silent hu).symm⟩
          exact hpost hfresh (Option.some_ne_none _)

/-- No session comes about without a handshake. -/
theorem Core.started_of_established (h : Core env first peer n stopping s)
    (hmem : .established ∈ s.log) : ∃ active, .started active ∈ s.log := by
  obtain ⟨before,hbefore,suite,l,r,hsetup⟩ := h.log.of_mem hmem
  obtain ⟨before,hbefore,x,active,_,hstarted,_⟩ := h.log.of_mem (hbefore.subset hsetup)
  exact ⟨active,hbefore.subset hstarted⟩

theorem Core.sent (h : Core env first peer n False s)
    (hestablished : s.connectionEstablished = true) {kind : Media}
    {r : SrtpSession κ × Option (Policy × List Byte)}
    (hr : r.1.Under (Keyed false s.log) ∧ ∀ p data, r.2 = some (p,data) → Keyed false s.log p) :
    Core env first peer n False (s.sent kind r) := by
  have ht : Core env first peer n False { s with sendSrtpSession := r.1 } :=
    { h with sending := hr.1 }
  unfold WebrtcStream.sent
  cases hout : r.2 with
  | none => exact ht
  | some q =>
      apply ht.send
      intro u hu hclosed
      have hmem := h.established hestablished
      have hopen : .stopped ∉ s.log := fun hstop => Bool.noConfusion
        (hclosed.symm.trans (h.closed hstop (h.started_of_established hmem) u hu))
      exact ⟨h.selected,hopen,hmem,hr.2 q.1 q.2 hout⟩

theorem Core.sendMedia (h : Core env first peer n False s) (kind : Media) (data : List Byte) :
    Core env first peer n False (s.sendMedia env kind data) := by
  unfold WebrtcStream.sendMedia
  split
  · rename_i hestablished
    cases kind with
    | rtp =>
        simp only [SrtpSession.protectRtp_eq]
        exact h.sent hestablished (SrtpSession.through_spec h.sending _ _)
    | rtcp =>
        simp only [SrtpSession.protectRtcp_eq]
        exact h.sent hestablished (SrtpSession.through_spec h.sending _ _)
  · exact h

theorem shutdown_spec (s : WebrtcStream ε κ) :
    s.shutdown.stoped = true ∧ s.shutdown.udpSocket = s.udpSocket := by
  unfold WebrtcStream.shutdown
  split
  · rename_i hstoped
    exact ⟨hstoped,rfl⟩
  · show (if s.observed then { s with stoped := true }.note .shutdown else
      { s with stoped := true }).stoped = true ∧ (if s.observed then
      { s with stoped := true }.note .shutdown else { s with stoped := true }).udpSocket = _
    split <;> exact ⟨rfl,rfl⟩

/-- The end of `Stop`: the transport has no connection any more, and the socket is closed. -/
theorem Core.close (h : Core env first peer n stopping s) (hstop : .stopped ∉ s.log)
    (hssl : s.dtlsTransport.ssl = none) :
    Core env first peer n False
      ({ s with udpSocket := s.udpSocket.map Udp.UdpSocket.close }.shutdown.note .stopped) := by
  have hclosed : Core env first peer n stopping
      { s with udpSocket := s.udpSocket.map Udp.UdpSocket.close } ∧
      ∀ v, s.udpSocket.map Udp.UdpSocket.close = some v → v.closed = true := by
    cases hu : s.udpSocket with
    | none =>
        constructor
        · rw [Option.map_none,← hu]
          exact h
        · intro v hv
          cases hv
    | some u =>
        have hclose : u.close.closed = true ∧ u.close.accepted = u.accepted := by
          unfold Udp.UdpSocket.close
          split
          · rename_i hended
            exact ⟨hended,rfl⟩
          · exact ⟨rfl,rfl⟩
        constructor
        · exact h.withSocket hu (Udp.keeps_close (h.socket u hu).1) hclose.2 fun _ => hclose.1
        · intro v hv
          obtain rfl := Option.some.inj hv
          exact hclose.1
  have hgrows := grows_shutdown { s with udpSocket := s.udpSocket.map Udp.UdpSocket.close }
  obtain ⟨hstoped,hsocket⟩ :=
    shutdown_spec { s with udpSocket := s.udpSocket.map Udp.UdpSocket.close }
  have hshut := hclosed.1.shutdown
  generalize { s with udpSocket := s.udpSocket.map Udp.UdpSocket.close }.shutdown = t
    at hgrows hstoped hsocket hshut ⊢
  have hnull : t.dtlsTransport.ssl = none := hgrows.transport ▸ hssl
  have hended : Core env first peer n stopping (t.note .stopped) := by
    apply hshut.appendUnsent (x := .stopped) (fun hmem => hstop (hgrows.stopped hmem)) rfl
    case hnominated => rintro ep ⟨⟩
    case hstarted => rintro active ⟨⟩
    case hstoped => exact id
    case hended => exact fun _ => ⟨hstoped,hnull,fun v hv => hclosed.2 v (hsocket.symm.trans hv)⟩
    case hshut => rintro ⟨⟩
    case hsetup => rintro ⟨⟩
  exact { hended with
    alive := fun _ => .inl (List.mem_append_right _ (List.mem_singleton.mpr rfl)) }

theorem Core.stop (h : Core env first peer n False s) :
    Core env first peer n False (s.stop env) := by
  unfold WebrtcStream.stop
  by_cases hstoped : s.stoped = true
  · rw [if_pos hstoped]
    exact h
  · rw [if_neg hstoped]
    have hstop : .stopped ∉ s.log := fun hmem => hstoped (h.ended hmem).1
    obtain ⟨hsound,hssl,hinited,hpeer,hroutine⟩ := Dtls.stop_spec env.ssl h.sound
    have ht : Core env first peer n True
        { s with dtlsTransport := (s.dtlsTransport.stop env.ssl).1 } :=
      { h with
        sound := hsound, peer := hpeer.trans h.peer
        role := fun hi => Bool.noConfusion (hi.symm.trans hinited)
        engaged := fun _ => .inr hssl, alive := fun _ => .inr trivial
        ended := fun hmem => absurd hmem hstop }
    have hcalls := ht.handleCalls hstop (.inr hssl) hroutine
    exact hcalls.1.close (fun hmem => hstop (hcalls.2.stopped hmem))
      (by rw [hcalls.2.transport]; exact hssl)

/-! ### Runs -/

/-- The thread takes a task. -/
theorem Core.dequeue (h : Core env first peer n stopping s) {task : Task} {posted : List Task}
    (hposted : s.posted = task::posted) :
    Core env first peer n stopping { s with posted := posted } := by
  have hmem {t : Task} (ht : t ∈ posted) : t ∈ s.posted := by
    rw [hposted]
    exact List.mem_cons_of_mem task ht
  refine { h with
    engaged := fun hstarted => h.engaged (hstarted.imp_right hmem)
    queued := fun d hd => h.queued d (hmem hd), setups := ?_ }
  have hcount := h.setups
  rw [hposted,List.countP_cons] at hcount
  show s.log.countP Entry.isSetup+posted.countP Task.isSetupSRTP ≤
    s.log.countP Entry.isHandshakeDone
  omega

theorem Core.runTask (h : Core env first peer n False s) {task : Task} {posted : List Task}
    (hposted : s.posted = task::posted) :
    Core env first peer n False ({ s with posted := posted }.runTask env task) := by
  have ht := h.dequeue hposted
  have hmem : task ∈ s.posted := by
    rw [hposted]
    exact List.mem_cons_self
  cases task with
  | receive d =>
      obtain ⟨hstun,hsocket⟩ := h.queued d hmem
      exact ht.onUdpSocketDataReceive hsocket fun hd => Bool.noConfusion (hd.symm.trans hstun)
  | dtls task =>
      cases task with
      | setupSRTP =>
          have hcount := h.setups
          rw [hposted,List.countP_cons] at hcount
          exact ht.setupSRTP (h.engaged (.inr hmem)) hcount
      | checkPending =>
          apply ht.onDtls (Dtls.continues_checkPending env.ssl h.sound)
          intro hcalls
          by_contra hinited
          exact hcalls (by
            show (s.dtlsTransport.checkPending env.ssl).2 = []
            rw [Dtls.Transport.checkPending,if_neg hinited])
  | stop => exact ht.stop

/-- The completions that bring no datagram leave what was accepted. -/
theorem completion_spec (u : Udp.UdpSocket) {e : Udp.Event}
    (he : (∃ ec, e = .handSend ec (some [])) ∨ ∃ error, e = .handleConnected error (some [])) :
    (Udp.step u e).accepted = u.accepted ∧ (Udp.step u e).closed = u.closed := by
  rcases he with ⟨ec,rfl⟩ | ⟨error,rfl⟩
  · simp only [Udp.step,Udp.UdpSocket.handSend,Udp.sendNext_eq]
    split
    · exact ⟨rfl,rfl⟩
    · split
      · exact ⟨rfl,rfl⟩
      · cases ec <;> exact ⟨rfl,rfl⟩
  · simp only [Udp.step,Udp.UdpSocket.handleConnected,Udp.UdpSocket.startReceive]
    split
    · exact ⟨rfl,rfl⟩
    · cases error with
      | true => exact ⟨rfl,rfl⟩
      | false =>
          simp only [Bool.false_eq_true,if_false]
          split <;> exact ⟨rfl,rfl⟩

theorem Core.completion (h : Core env first peer 1 stopping s) {u : Udp.UdpSocket}
    (hu : s.udpSocket = some u) {e : Udp.Event}
    (he : (∃ ec, e = .handSend ec (some [])) ∨ ∃ error, e = .handleConnected error (some [])) :
    Core env first peer 1 stopping { s with udpSocket := some (Udp.step u e) } := by
  obtain ⟨haccepted,hclosed⟩ := completion_spec u he
  exact h.withSocket hu (Udp.inv_step (h.socket u hu).1 e) haccepted hclosed.trans

theorem core_step (h : Core env first peer 1 False s) (e : Event) :
    Core env first peer 1 False (step env s e) := by
  cases e with
  | proxy listens d =>
      simp only [step]
      split
      · rename_i hstun
        exact h.receiveDataFromProxy listens hstun
      · exact h
  | runTask =>
      simp only [step]
      split
      · exact h
      · rename_i task posted hposted
        exact h.runTask hposted
  | timeout =>
      apply h.onDtls (Dtls.continues_onTimerTimeout env.ssl h.sound)
      intro hcalls
      by_contra hinited
      exact hcalls (by rw [Dtls.Transport.onTimerTimeout,if_neg hinited])
  | handSend ec =>
      simp only [step]
      split
      · exact h
      · rename_i u hu
        have ht := h.completion hu (.inl ⟨ec,rfl⟩)
        split
        · exact ht.shutdown
        · exact ht
  | handleReceive ec d =>
      simp only [step]
      split
      · exact h
      · rename_i u hu
        split
        · exact h
        · rename_i hreading
          have hkeeps := (h.socket u hu).1
          have hsum := hkeeps.reading
          have hunread : Udp.Unread { u with receiving := u.receiving-1 } :=
            ⟨hkeeps.opened,hkeeps.begun,hkeeps.alone,
              by show u.connecting+(u.receiving-1) ≤ 0; omega,hkeeps.checked⟩
          exact h.handleReceive hu hunread rfl rfl ec d
  | handleConnected error =>
      simp only [step]
      split
      · exact h
      · rename_i u hu
        have ht := h.completion hu (.inr ⟨error,rfl⟩)
        split
        · exact ht.shutdown
        · exact ht
  | sendRtp data => exact h.sendMedia .rtp data
  | sendRtcp serialized =>
      cases serialized with
      | none => exact h
      | some data => exact h.sendMedia .rtcp data
  | stop =>
      apply h.enqueue
      · rintro t ⟨⟩
      · rintro d ⟨⟩
  | observerGone => exact { h with }

theorem core_started (env : Environment ε κ) (iceLite : Ice.IceLite)
    (peer : Dtls.DtlsTransport) (ssl : ε) (remoteDtlsSetup : Signaling.Text)
    (first : UdpEndpoint) :
    Core env first peer 1 False
      (started iceLite peer ssl remoteDtlsSetup first) := by
  constructor
  case log => exact along_nil _
  case sound =>
    exact ⟨fun c hc => absurd hc List.not_mem_nil,fun hinited => Bool.noConfusion hinited,
      fun htimer => absurd rfl htimer⟩
  case peer => rfl
  case role => exact fun hinited => Bool.noConfusion hinited
  case engaged => simp [started]
  case ready => exact fun hready => Bool.noConfusion hready
  case opened => simp [started]
  case alive => exact fun hnull => absurd hnull (Option.some_ne_none ssl)
  case ended => exact fun hmem => absurd hmem List.not_mem_nil
  case closed => exact fun hmem => absurd hmem List.not_mem_nil
  case shut => exact fun hmem => absurd hmem List.not_mem_nil
  case established => exact fun he => Bool.noConfusion he
  case sending => simp [started,SrtpSession.Under]
  case receiving => simp [started,SrtpSession.Under]
  case selected => rfl
  case queued => exact fun d hd => absurd hd List.not_mem_nil
  case setups => exact Nat.le_refl _
  case socket => simp [started]
  case silent => exact fun _ => rfl

/-- libsrtp reads the master key of a setup to its end, and nothing behind it. -/
theorem Core.keyed_length (h : Core env first peer n stopping s) {incoming : Bool} {p : Policy}
    (hp : Keyed incoming s.log p) : p.rtp.cipherKeyLen = p.key.length := by
  obtain ⟨suite,l,r,hmem,hpolicy⟩ := hp
  obtain ⟨_,_,x,active,_,_,hparams⟩ := h.log.of_mem hmem
  obtain ⟨hkey,_,hreads⟩ := policy_reads hpolicy
  rw [hreads,hkey]
  exact (Dtls.srtpParams_length hparams incoming).symm

/-- Whatever OpenSSL and libsrtp answer, and in whatever order datagrams, tasks, timers, calls
and completions come: each entry of the log is justified by those before it, no handshake is
used for two setups, libsrtp reads no more of a key than was copied, OpenSSL is called on a null
pointer only for the certificate of the peer, which says that there is none, and the datagrams of
the log are sent in its order. -/
theorem log_justified (env : Environment ε κ) (iceLite : Ice.IceLite)
    (peer : Dtls.DtlsTransport) (ssl : ε) (remoteDtlsSetup : Signaling.Text)
    (first : UdpEndpoint) (es : List Event) :
    let s := run (step env) (started iceLite peer ssl remoteDtlsSetup first) es
    Along (Justified env first peer) s.log ∧
      s.log.countP Entry.isSetup ≤ s.log.countP Entry.isHandshakeDone ∧
      (∀ x ∈ s.log, ∀ p, x.policy = some p → p.rtp.cipherKeyLen = p.key.length) ∧
      (∀ c ∈ s.dtlsTransport.nullCalls, c = .peerCertificate) ∧
      ∀ u, s.udpSocket = some u → u.sendQueue.started <+: messages s.log := by
  have h := run_invariant (core_started env iceLite peer ssl remoteDtlsSetup first)
    (fun _ e h => core_step h e) es
  generalize run (step env) (started iceLite peer ssl remoteDtlsSetup first) es = s at h
  refine ⟨h.log,(Nat.le_add_right _ _).trans h.setups,?_,h.sound.nullCalls,?_⟩
  · intro x hx p hp
    obtain ⟨before,hbefore,hjustified⟩ := h.log.of_mem hx
    obtain ⟨more,hmore⟩ := hbefore
    have hkeyed {incoming : Bool} (hk : Keyed incoming before p) : Keyed incoming s.log p :=
      hmore ▸ hk.append more
    cases x with
    | received kind policy data =>
        obtain rfl := Option.some.inj hp
        exact h.keyed_length (hkeyed hjustified.2)
    | sent payload message =>
        cases payload with
        | media kind policy =>
            obtain rfl := Option.some.inj hp
            exact h.keyed_length (hkeyed hjustified.2.2.2)
        | _ => cases hp
    | _ => cases hp
  · intro u hu
    rw [← (h.socket u hu).2]
    exact (h.socket u hu).1.begun

end Ylrtc.Connection
