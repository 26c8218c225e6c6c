import Ylrtc.Transport.WebrtcStream

/-!
# The log of a connection

What holds of a stream between two callbacks, and that an entry which is justified may be
added to the log. The callbacks of DTLS that tell of no step of the handshake are done here.
-/
namespace Ylrtc.Connection
open CursorParser Run Srtp Stun

def Task.isSetupSRTP : Task → Bool
  | .dtls .setupSRTP => true
  | _ => false

variable {ε κ : Type}

/-! ### Entries at the end of the log -/

section Log
variable {log : List (Entry ε)} {x y : Entry ε} {first : UdpEndpoint}

theorem mem_append_ne (h : y ≠ x) : y ∈ log++[x] ↔ y ∈ log := by
  rw [List.mem_append,List.mem_singleton]
  exact or_iff_left h

theorem Keyed.append {incoming : Bool} {p : Policy} (h : Keyed incoming log p)
    (more : List (Entry ε)) : Keyed incoming (log++more) p := by
  obtain ⟨suite,l,r,hmem,hpolicy⟩ := h
  exact ⟨suite,l,r,List.mem_append_left more hmem,hpolicy⟩

theorem nominee_append (h : ∀ ep, x ≠ .nominated ep) :
    nominee first (log++[x]) = nominee first log := by
  rw [nominee,List.foldl_append]
  cases x with
  | nominated ep => exact absurd rfl (h ep)
  | _ => rfl

theorem nominee_nominated (ep : UdpEndpoint) : nominee first (log++[.nominated ep]) = ep := by
  rw [nominee,List.foldl_append]
  rfl

theorem messages_append (x : Entry ε) : messages (log++[x]) = messages log++x.message.toList := by
  rw [messages,List.filterMap_append]
  cases hx : x.message with
  | none => rw [List.filterMap_cons_none hx]; rfl
  | some m => rw [List.filterMap_cons_some hx]; rfl

end Log

/-- A socket that has taken what the log says, with no more than `n` operations outstanding that
lead to a datagram. -/
def Carries (n : ℕ) (log : List (Entry ε)) (u : Udp.UdpSocket) : Prop :=
  Udp.Keeps (fun accepted queue => queue.Writing accepted) n u ∧ u.accepted = messages log

/-- What each callback keeps. `stopping` tells whether `Stop` is being run. -/
structure Core (env : Environment ε κ) (first : UdpEndpoint) (peer : Dtls.DtlsTransport) (n : ℕ)
    (stopping : Prop) (s : WebrtcStream ε κ) : Prop where
  log : Along (Justified env first peer) s.log
  sound : s.dtlsTransport.Sound
  peer : s.dtlsTransport.toDtlsTransport = peer
  role : s.dtlsTransport.inited = true → .started (s.dtlsTransport.setup = .kActive) ∈ s.log
  engaged : (∃ active, .started active ∈ s.log) ∨ .dtls .setupSRTP ∈ s.posted →
    s.dtlsTransport.inited = true ∨ s.dtlsTransport.ssl = none
  ready : s.dtlsReady = true → ∃ active, .started active ∈ s.log
  opened : (∃ active, .started active ∈ s.log) → s.udpSocket ≠ none
  alive : s.dtlsTransport.ssl = none → .stopped ∈ s.log ∨ stopping
  ended : .stopped ∈ s.log → s.stoped = true ∧ s.dtlsTransport.ssl = none
  closed : .stopped ∈ s.log → (∃ active, .started active ∈ s.log) →
    ∀ u, s.udpSocket = some u → u.closed = true
  shut : .shutdown ∈ s.log → s.stoped = true
  established : s.connectionEstablished = true → .established ∈ s.log
  sending : s.sendSrtpSession.Under (Keyed false s.log)
  receiving : s.recvSrtpSession.Under (Keyed true s.log)
  selected : s.selectedEndpoint = nominee first s.log
  queued : ∀ d, .receive d ∈ s.posted → isStun d.data = true ∧ s.udpSocket ≠ none
  setups : s.log.countP Entry.isSetup+s.posted.countP Task.isSetupSRTP ≤
    s.log.countP Entry.isHandshakeDone
  socket : ∀ u, s.udpSocket = some u → Carries n s.log u
  silent : s.udpSocket = none → messages s.log = []

variable {env : Environment ε κ} {first : UdpEndpoint} {peer : Dtls.DtlsTransport} {n : ℕ}
  {stopping : Prop} {s : WebrtcStream ε κ}

/-- One entry more, with what changes along with it. -/
theorem Core.appendWith (h : Core env first peer n stopping s) {x : Entry ε}
    {t : Dtls.Transport ε} {ep : UdpEndpoint} {stoped : Bool} {u : Option Udp.UdpSocket}
    (hx : Justified env first peer s.log x) (hsound : t.Sound) (hpeer : t.toDtlsTransport = peer)
    (hrole : t.inited = true → .started (t.setup = .kActive) ∈ s.log++[x])
    (hengaged : s.dtlsTransport.inited = true ∨ s.dtlsTransport.ssl = none →
      t.inited = true ∨ t.ssl = none)
    (hssl : t.ssl = none ↔ s.dtlsTransport.ssl = none)
    (hep : ep = nominee first (s.log++[x])) (hstoped : s.stoped = true → stoped = true)
    (hu : ∀ v, u = some v → Carries n (s.log++[x]) v)
    (hkept : ∀ v, u = some v → ∀ w, s.udpSocket = some w → w.closed = true → v.closed = true)
    (hnone : u = none → s.udpSocket = none ∧ x.message = none)
    (hstarted : ∀ active, x = .started active → t.inited = true ∧ u ≠ none)
    (hended : x = .stopped → stoped = true ∧ t.ssl = none ∧ ∀ v, u = some v → v.closed = true)
    (hshut : x = .shutdown → stoped = true)
    (hsetup : x.isSetup = true → s.log.countP Entry.isSetup+s.posted.countP Task.isSetupSRTP+1 ≤
      s.log.countP Entry.isHandshakeDone) :
    Core env first peer n stopping { s with
      dtlsTransport := t, selectedEndpoint := ep, stoped := stoped, udpSocket := u
      log := s.log++[x] } := by
  have hmem {y : Entry ε} (hy : y ∈ s.log) : y ∈ s.log++[x] := List.mem_append_left [x] hy
  have hold {y : Entry ε} (hy : y ∈ s.log++[x]) : y ∈ s.log ∨ x = y := by
    rcases List.mem_append.mp hy with hy | hy
    · exact .inl hy
    · exact .inr (List.mem_singleton.mp hy).symm
  have hsome : s.udpSocket ≠ none → u ≠ none := fun hne hu => hne (hnone hu).1
  constructor
  case log => exact along_snoc.mpr ⟨h.log,hx⟩
  case sound => exact hsound
  case peer => exact hpeer
  case role => exact hrole
  case engaged =>
    rintro (⟨active,hactive⟩ | hposted)
    · rcases hold hactive with hactive | heq
      · exact hengaged (h.engaged (.inl ⟨active,hactive⟩))
      · exact .inl (hstarted active heq).1
    · exact hengaged (h.engaged (.inr hposted))
  case ready =>
    intro hready
    obtain ⟨active,hactive⟩ := h.ready hready
    exact ⟨active,hmem hactive⟩
  case opened =>
    rintro ⟨active,hactive⟩
    rcases hold hactive with hactive | heq
    · exact hsome (h.opened ⟨active,hactive⟩)
    · exact (hstarted active heq).2
  case alive => exact fun hnull => (h.alive (hssl.mp hnull)).imp_left hmem
  case ended =>
    intro hstop
    rcases hold hstop with hstop | heq
    · exact ⟨hstoped (h.ended hstop).1,hssl.mpr (h.ended hstop).2⟩
    · exact ⟨(hended heq).1,(hended heq).2.1⟩
  case closed =>
    rintro hstop ⟨active,hactive⟩ v hv
    rcases hold hstop with hstop | heq
    · rcases hold hactive with hactive | heq
      · obtain ⟨w,hw⟩ := Option.ne_none_iff_exists'.mp (h.opened ⟨active,hactive⟩)
        exact hkept v hv w hw (h.closed hstop ⟨active,hactive⟩ w hw)
      · exact absurd (hssl.mpr (h.ended hstop).2) (hsound.inited (hstarted active heq).1)
    · exact (hended heq).2.2 v hv
  case shut =>
    intro hstop
    rcases hold hstop with hstop | heq
    · exact hstoped (h.shut hstop)
    · exact hshut heq
  case established => exact fun he => hmem (h.established he)
  case sending => exact h.sending.mono fun _ hp => hp.append [x]
  case receiving => exact h.receiving.mono fun _ hp => hp.append [x]
  case selected => exact hep
  case queued => exact fun d hd => ⟨(h.queued d hd).1,hsome (h.queued d hd).2⟩
  case setups =>
    have hcount := h.setups
    show (s.log++[x]).countP Entry.isSetup+s.posted.countP Task.isSetupSRTP ≤
      (s.log++[x]).countP Entry.isHandshakeDone
    rw [List.countP_append,List.countP_append,List.countP_singleton,List.countP_singleton]
    by_cases hset : x.isSetup = true
    · have hmore := hsetup hset
      rw [if_pos hset]
      omega
    · rw [if_neg hset]
      omega
  case socket => exact hu
  case silent =>
    intro hnil
    show messages (s.log++[x]) = []
    rw [messages_append,h.silent (hnone hnil).1,(hnone hnil).2]
    rfl

theorem Carries.unsent {log : List (Entry ε)} {u : Udp.UdpSocket} (h : Carries n log u)
    {x : Entry ε} (hx : x.message = none) : Carries n (log++[x]) u := by
  refine ⟨h.1,?_⟩
  rw [messages_append,hx,h.2]
  exact (List.append_nil _).symm

/-- The transport stays. -/
theorem Core.append (h : Core env first peer n stopping s) {x : Entry ε} {ep : UdpEndpoint}
    {stoped : Bool} {u : Option Udp.UdpSocket} (hx : Justified env first peer s.log x)
    (hep : ep = nominee first (s.log++[x])) (hstoped : s.stoped = true → stoped = true)
    (hu : ∀ v, u = some v → Carries n (s.log++[x]) v)
    (hkept : ∀ v, u = some v → ∀ w, s.udpSocket = some w → w.closed = true → v.closed = true)
    (hnone : u = none → s.udpSocket = none ∧ x.message = none)
    (hstarted : ∀ active, x ≠ .started active)
    (hended : x = .stopped → stoped = true ∧ s.dtlsTransport.ssl = none ∧
      ∀ v, u = some v → v.closed = true)
    (hshut : x = .shutdown → stoped = true)
    (hsetup : x.isSetup = true → s.log.countP Entry.isSetup+s.posted.countP Task.isSetupSRTP+1 ≤
      s.log.countP Entry.isHandshakeDone) :
    Core env first peer n stopping { s with
      selectedEndpoint := ep, stoped := stoped, udpSocket := u, log := s.log++[x] } :=
  h.appendWith hx h.sound h.peer (fun hinited => List.mem_append_left [x] (h.role hinited)) id
    Iff.rfl hep hstoped hu hkept hnone (fun active heq => absurd heq (hstarted active)) hended
    hshut hsetup

/-- Neither the endpoint nor the socket changes. -/
theorem Core.appendUnsent (h : Core env first peer n stopping s) {x : Entry ε} {stoped : Bool}
    (hx : Justified env first peer s.log x) (hmessage : x.message = none)
    (hnominated : ∀ ep, x ≠ .nominated ep) (hstarted : ∀ active, x ≠ .started active)
    (hstoped : s.stoped = true → stoped = true)
    (hended : x = .stopped → stoped = true ∧ s.dtlsTransport.ssl = none ∧
      ∀ v, s.udpSocket = some v → v.closed = true)
    (hshut : x = .shutdown → stoped = true)
    (hsetup : x.isSetup = true → s.log.countP Entry.isSetup+s.posted.countP Task.isSetupSRTP+1 ≤
      s.log.countP Entry.isHandshakeDone) :
    Core env first peer n stopping { s with stoped := stoped, log := s.log++[x] } := by
  apply h.append hx
  case hep => rw [nominee_append hnominated,h.selected]
  case hstoped => exact hstoped
  case hu => exact fun v hv => (h.socket v hv).unsent hmessage
  case hkept => exact fun v hv w hw hclosed => Option.some.inj (hv.symm.trans hw) ▸ hclosed
  case hnone => exact fun hnone => ⟨hnone,hmessage⟩
  case hstarted => exact hstarted
  case hended => exact hended
  case hshut => exact hshut
  case hsetup => exact hsetup

/-- An entry that nothing else goes with. -/
def Entry.Plain : Entry ε → Prop
  | .handshakeDone | .verified _ | .connected | .established | .received .. => True
  | _ => False

theorem Core.note (h : Core env first peer n stopping s) {x : Entry ε} (hplain : x.Plain)
    (hx : Justified env first peer s.log x) : Core env first peer n stopping (s.note x) := by
  apply h.appendUnsent hx
  case hmessage => cases x <;> first | exact hplain.elim | rfl
  case hnominated =>
    rintro ep rfl
    exact hplain
  case hstarted =>
    rintro active rfl
    exact hplain
  case hstoped => exact id
  case hended =>
    rintro rfl
    cases hplain
  case hshut =>
    rintro rfl
    cases hplain
  case hsetup =>
    intro hset
    cases x <;> first | exact hplain.elim | exact Bool.noConfusion hset

/-- The observer hears of the shutdown once. -/
theorem Core.shutdown (h : Core env first peer n stopping s) :
    Core env first peer n stopping s.shutdown := by
  unfold WebrtcStream.shutdown
  by_cases hstoped : s.stoped = true
  · rw [if_pos hstoped]
    exact h
  · rw [if_neg hstoped]
    have hfresh : .shutdown ∉ s.log := fun hmem => hstoped (h.shut hmem)
    by_cases hobserved : s.observed = true
    · show Core env first peer n stopping (if s.observed then
        { s with stoped := true }.note .shutdown else { s with stoped := true })
      rw [if_pos hobserved]
      apply h.appendUnsent (x := .shutdown) hfresh rfl
      case hnominated => rintro ep ⟨⟩
      case hstarted => rintro active ⟨⟩
      case hstoped => exact fun _ => rfl
      case hended => rintro ⟨⟩
      case hshut => exact fun _ => rfl
      case hsetup => rintro ⟨⟩
    · simp only [if_neg hobserved]
      exact { h with ended := fun hstop => ⟨rfl,(h.ended hstop).2⟩, shut := fun _ => rfl }

/-- A socket takes a message if it is open. -/
theorem Core.send (h : Core env first peer n stopping s) {payload : Payload}
    {message : Udp.UdpMessage} (hx : ∀ u, s.udpSocket = some u → u.closed = false →
      Justified env first peer s.log (.sent payload message)) :
    Core env first peer n stopping (s.send payload message) := by
  unfold WebrtcStream.send
  cases hsocket : s.udpSocket with
  | none => exact h
  | some u =>
      show Core env first peer n stopping (if u.closed then
        { s with udpSocket := some (u.sendMessage message) } else
        { s with udpSocket := some (u.sendMessage message) }.note (.sent payload message))
      by_cases hclosed : u.closed = true
      · rw [if_pos hclosed,Udp.sendMessage_eq,if_pos hclosed,← hsocket]
        exact h
      · have hu := h.socket u hsocket
        have hopen := Bool.eq_false_iff.mpr hclosed
        have hcarries : Carries n (s.log++[.sent payload message]) (u.sendMessage message) := by
          refine ⟨Udp.keeps_sendMessage WriteQueue.admits_writing hu.1 message,?_⟩
          rw [messages_append,Udp.sendMessage_eq,if_neg hclosed,hu.2]
          rfl
        rw [if_neg hclosed]
        apply h.append (hx u hsocket hopen)
        case hep => rw [nominee_append (by rintro ep ⟨⟩),h.selected]
        case hstoped => exact id
        case hu => exact fun v hv => Option.some.inj hv ▸ hcarries
        case hkept =>
          intro v hv w hw hclosed
          obtain rfl := Option.some.inj (hsocket.symm.trans hw)
          exact absurd hclosed (Bool.eq_false_iff.mp hopen)
        case hnone => exact fun hnone => absurd hnone (Option.some_ne_none _)
        case hstarted => rintro active ⟨⟩
        case hended => rintro ⟨⟩
        case hshut => rintro ⟨⟩
        case hsetup => rintro ⟨⟩

/-! ### Callbacks of DTLS -/

/-- The log grows, by nothing that ends the stream, and the transport stays. -/
structure Grows (s t : WebrtcStream ε κ) : Prop where
  log : s.log <+: t.log
  socket : s.udpSocket ≠ none → t.udpSocket ≠ none
  transport : t.dtlsTransport = s.dtlsTransport
  stopped : .stopped ∈ t.log → .stopped ∈ s.log

theorem Grows.trans {s t r : WebrtcStream ε κ} (h : Grows s t) (hr : Grows t r) : Grows s r :=
  ⟨h.log.trans hr.log,fun hs => hr.socket (h.socket hs),hr.transport.trans h.transport,
    fun hstop => h.stopped (hr.stopped hstop)⟩

theorem grows_same {t : WebrtcStream ε κ} (hlog : t.log = s.log)
    (hsocket : s.udpSocket ≠ none → t.udpSocket ≠ none)
    (htransport : t.dtlsTransport = s.dtlsTransport) : Grows s t :=
  ⟨by rw [hlog],hsocket,htransport,fun hstop => hlog ▸ hstop⟩

theorem Grows.note {t : WebrtcStream ε κ} (h : Grows s t) {x : Entry ε} (hx : .stopped ≠ x) :
    Grows s (t.note x) :=
  h.trans ⟨List.prefix_append _ _,id,rfl,(mem_append_ne hx).mp⟩

theorem grows_shutdown (s : WebrtcStream ε κ) : Grows s s.shutdown := by
  unfold WebrtcStream.shutdown
  split
  · exact grows_same rfl id rfl
  · show Grows s (if s.observed then { s with stoped := true }.note .shutdown else
      { s with stoped := true })
    split
    · apply Grows.note
      · exact grows_same rfl id rfl
      · rintro ⟨⟩
    · exact grows_same rfl id rfl

theorem grows_send (s : WebrtcStream ε κ) (payload : Payload) (message : Udp.UdpMessage) :
    Grows s (s.send payload message) := by
  unfold WebrtcStream.send
  split
  · exact grows_same rfl id rfl
  · rename_i u hsocket
    show Grows s (if u.closed then { s with udpSocket := some (u.sendMessage message) } else
      { s with udpSocket := some (u.sendMessage message) }.note (.sent payload message))
    split
    · exact grows_same rfl (fun _ => Option.some_ne_none _) rfl
    · apply Grows.note
      · exact grows_same rfl (fun _ => Option.some_ne_none _) rfl
      · rintro ⟨⟩

/-- A task of the transport is posted, at the end of a handshake or else. -/
theorem Core.post (h : Core env first peer n stopping s)
    (hengaged : s.dtlsTransport.inited = true ∨ s.dtlsTransport.ssl = none) (task : Dtls.Task) :
    Core env first peer n stopping (s.handleDtls env (.post task)) := by
  have hqueued (d : Ice.Datagram) (hd : .receive d ∈ s.posted++[Task.dtls task]) :
      isStun d.data = true ∧ s.udpSocket ≠ none := by
    rcases List.mem_append.mp hd with hd | hd
    · exact h.queued d hd
    · cases List.mem_singleton.mp hd
  have hcount := h.setups
  cases task with
  | checkPending =>
      refine { h with engaged := fun _ => hengaged, queued := hqueued, setups := ?_ }
      show _+(s.posted++[Task.dtls .checkPending]).countP Task.isSetupSRTP ≤ _
      rw [List.countP_append]
      exact hcount
  | setupSRTP =>
      have ht := h.note (x := .handshakeDone) trivial trivial
      refine { ht with engaged := fun _ => hengaged, queued := hqueued, setups := ?_ }
      show (s.log++[Entry.handshakeDone]).countP Entry.isSetup+
        (s.posted++[Task.dtls .setupSRTP]).countP Task.isSetupSRTP ≤
        (s.log++[Entry.handshakeDone]).countP Entry.isHandshakeDone
      simp only [List.countP_append,List.countP_singleton,Entry.isSetup,Entry.isHandshakeDone,
        Task.isSetupSRTP,if_true,Bool.false_eq_true,if_false]
      omega

theorem grows_handleDtls (env : Environment ε κ) (s : WebrtcStream ε κ) {c : Dtls.Call ε} (hc : c.Routine) :
    Grows s (s.handleDtls env c) := by
  cases c with
  | sendData data => exact grows_send s _ _
  | setup suite l r => exact hc.elim
  | error => exact grows_shutdown s
  | shutdown => exact grows_shutdown s
  | post task =>
      cases task with
      | checkPending => exact grows_same rfl id rfl
      | setupSRTP =>
          apply Grows.note (t := { s with posted := s.posted++[Task.dtls .setupSRTP] })
          · exact grows_same rfl id rfl
          · rintro ⟨⟩
  | started active => exact hc.elim
  | verified x => exact hc.elim

/-- A call that tells of no step of the handshake. -/
theorem Core.handleDtls (h : Core env first peer n stopping s) (hstop : .stopped ∉ s.log)
    (hengaged : s.dtlsTransport.inited = true ∨ s.dtlsTransport.ssl = none) {c : Dtls.Call ε}
    (hc : c.Routine) : Core env first peer n stopping (s.handleDtls env c) := by
  cases c with
  | sendData data => exact h.send fun _ _ _ => ⟨h.selected,hstop⟩
  | setup suite l r => exact hc.elim
  | error => exact h.shutdown
  | shutdown => exact h.shutdown
  | post task => exact h.post hengaged task
  | started active => exact hc.elim
  | verified x => exact hc.elim

theorem Core.handleCalls (h : Core env first peer n stopping s) (hstop : .stopped ∉ s.log)
    (hengaged : s.dtlsTransport.inited = true ∨ s.dtlsTransport.ssl = none)
    {calls : List (Dtls.Call ε)} (hcalls : ∀ c ∈ calls, c.Routine) :
    Core env first peer n stopping (calls.foldl (WebrtcStream.handleDtls env) s) ∧
      Grows s (calls.foldl (WebrtcStream.handleDtls env) s) := by
  induction calls generalizing s with
  | nil => exact ⟨h,grows_same rfl id rfl⟩
  | cons c calls ih =>
      have hc := hcalls c List.mem_cons_self
      have hgrows := grows_handleDtls env s hc
      have hrest := ih (h.handleDtls hstop hengaged hc) (fun hmem => hstop (hgrows.stopped hmem))
        (by rw [hgrows.transport]; exact hengaged) fun c' hc' => hcalls c' (List.mem_cons_of_mem c hc')
      exact ⟨hrest.1,hgrows.trans hrest.2⟩

/-- The transport goes on. -/
theorem Core.onDtls (h : Core env first peer n stopping s)
    {r : Dtls.Transport ε × List (Dtls.Call ε)} (hr : Dtls.Continues s.dtlsTransport r)
    (hinited : r.2 ≠ [] → s.dtlsTransport.inited = true) :
    Core env first peer n stopping (s.onDtls env r) := by
  have ht : Core env first peer n stopping { s with dtlsTransport := r.1 } := by
    refine { h with
      sound := hr.sound, peer := hr.peer.trans h.peer, role := ?_, engaged := ?_
      alive := fun hssl => h.alive (hr.ssl.mp hssl)
      ended := fun hstop => ⟨(h.ended hstop).1,hr.ssl.mpr (h.ended hstop).2⟩ }
    · show r.1.inited = true → .started (r.1.setup = .kActive) ∈ s.log
      rw [hr.inited,hr.setup]
      exact h.role
    · show _ → r.1.inited = true ∨ r.1.ssl = none
      rw [hr.inited,hr.ssl]
      exact h.engaged
  cases hcalls : r.2 with
  | nil =>
      rw [WebrtcStream.onDtls,hcalls]
      exact ht
  | cons c calls =>
      have hi := hinited (by rw [hcalls]; exact List.cons_ne_nil c calls)
      have hstop : .stopped ∉ s.log := fun hmem => h.sound.inited hi (h.ended hmem).2
      exact (ht.handleCalls hstop (.inl (hr.inited.trans hi)) hr.routine).1

end Ylrtc.Connection
