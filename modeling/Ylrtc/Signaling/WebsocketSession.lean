import Ylrtc.Lib.Run
import Ylrtc.Lib.WriteQueue

/-!
# What a WebSocket session writes

`WebsocketSession` of `signaling/signaling_server_base.h` over any order in which its
operations complete. It keeps one write outstanding. A write that fails is never taken out of
the queue, which stalls the session for good.
-/
namespace Ylrtc.Signaling.Websocket
open Run WriteQueue

variable {σ ν ξ τ : Type}

/-- The signaling handler of the session with all that is behind it, on states `σ`,
notifications `ν`, requests `ξ` and texts `τ`. A request gives a response and, before that,
notifications that this session sends. -/
structure SignalingHandler (σ ν ξ τ : Type) where
  handleSignaling : σ → ξ → σ × List τ × τ
  hijackNotification : σ → ν → Bool
  /-- `GetNotifyContext().dump()`. -/
  dump : ν → τ

/-- The session, the operations that are outstanding, and what it was asked and told to send. -/
structure WebsocketSession (σ ξ τ : Type) where
  signalingHandler : σ
  writeBuffers : Line τ := {}
  accepting : ℕ := 1
  reading : ℕ := 0
  submitted : List τ := []
  requests : List ξ := []
  responses : List τ := []
  /-- The calls of `HandleWsError`. -/
  errors : ℕ := 0

namespace WebsocketSession

def sendText (s : WebsocketSession σ ξ τ) (t : τ) : WebsocketSession σ ξ τ :=
  { s with writeBuffers := s.writeBuffers.push t, submitted := s.submitted++[t] }

def sendNotification (h : SignalingHandler σ ν ξ τ) (s : WebsocketSession σ ξ τ) (notification : ν) :
    WebsocketSession σ ξ τ :=
  if h.hijackNotification s.signalingHandler notification then s
  else s.sendText (h.dump notification)

def handleWsError (s : WebsocketSession σ ξ τ) : WebsocketSession σ ξ τ := { s with errors := s.errors+1 }

def doRead (s : WebsocketSession σ ξ τ) : WebsocketSession σ ξ τ := { s with reading := s.reading+1 }

def onAccept (s : WebsocketSession σ ξ τ) (ec : Bool) : WebsocketSession σ ξ τ :=
  if ec then s.handleWsError else s.doRead

def onRead (h : SignalingHandler σ ν ξ τ) (s : WebsocketSession σ ξ τ) (ec : Bool) (signaling : ξ) :
    WebsocketSession σ ξ τ :=
  if ec then s.handleWsError
  else
    let (handler,notifications,response) := h.handleSignaling s.signalingHandler signaling
    let s := notifications.foldl sendText { s with signalingHandler := handler }
    let s := { s with requests := s.requests++[signaling], responses := s.responses++[response] }
    (s.sendText response).doRead

def onWrite (s : WebsocketSession σ ξ τ) (ec : Bool) : WebsocketSession σ ξ τ :=
  if ec then s.handleWsError else { s with writeBuffers := s.writeBuffers.pop }

end WebsocketSession

inductive Event (ν ξ : Type) where
  | onAccept (ec : Bool)
  | onRead (ec : Bool) (signaling : ξ)
  | onWrite (ec : Bool)
  | sendNotification (notification : ν)

/-- A handler runs only while its operation is outstanding. -/
def step (h : SignalingHandler σ ν ξ τ) (s : WebsocketSession σ ξ τ) : Event ν ξ → WebsocketSession σ ξ τ
  | .onAccept ec =>
      if s.accepting = 0 then s else { s with accepting := s.accepting-1 }.onAccept ec
  | .onRead ec signaling =>
      if s.reading = 0 then s else { s with reading := s.reading-1 }.onRead h ec signaling
  | .onWrite ec =>
      if s.writeBuffers.outstanding = [] then s
      else { s with writeBuffers := s.writeBuffers.ended }.onWrite ec
  | .sendNotification notification => s.sendNotification h notification

/-- What every operation keeps, with at most `n` operations outstanding that lead to a
request. -/
structure Inv (n : ℕ) (s : WebsocketSession σ ξ τ) : Prop where
  queue : s.writeBuffers.Settled s.submitted
  reading : s.accepting+s.reading ≤ n
  answered : s.responses.Sublist s.submitted
  matched : s.responses.length = s.requests.length

variable {n : ℕ}

theorem inv_sendText {s : WebsocketSession σ ξ τ} (h : Inv n s) (t : τ) : Inv n (s.sendText t) :=
  ⟨admits_settled.push t h.queue,h.reading,h.answered.trans (List.sublist_append_left _ _),h.matched⟩

theorem inv_sendTexts (ts : List τ) {s : WebsocketSession σ ξ τ} (h : Inv n s) :
    Inv n (ts.foldl WebsocketSession.sendText s) := by
  induction ts generalizing s with
  | nil => exact h
  | cons t ts ih => exact ih (inv_sendText h t)

theorem inv_handleWsError {s : WebsocketSession σ ξ τ} (h : Inv n s) : Inv n s.handleWsError :=
  ⟨h.queue,h.reading,h.answered,h.matched⟩

theorem inv_doRead {s : WebsocketSession σ ξ τ} (h : Inv 0 s) : Inv 1 s.doRead := by
  refine ⟨h.queue,?_,h.answered,h.matched⟩
  have hreading := h.reading
  show s.accepting+(s.reading+1) ≤ 1
  omega

theorem Inv.mono {m : ℕ} {s : WebsocketSession σ ξ τ} (h : Inv n s) (hle : n ≤ m) : Inv m s :=
  ⟨h.queue,h.reading.trans hle,h.answered,h.matched⟩

theorem inv_onAccept {s : WebsocketSession σ ξ τ} (h : Inv 0 s) (ec : Bool) : Inv 1 (s.onAccept ec) := by
  cases ec with
  | false => exact inv_doRead h
  | true => exact (inv_handleWsError h).mono (Nat.zero_le 1)

/-- A request is answered behind the notifications that it causes. -/
theorem inv_onRead {s : WebsocketSession σ ξ τ} (hs : Inv 0 s) (h : SignalingHandler σ ν ξ τ) (ec : Bool)
    (signaling : ξ) : Inv 1 (s.onRead h ec signaling) := by
  cases ec with
  | true => exact (inv_handleWsError hs).mono (Nat.zero_le 1)
  | false =>
      rcases hresult : h.handleSignaling s.signalingHandler signaling with
        ⟨handler,notifications,response⟩
      have hnotified : Inv 0 (notifications.foldl WebsocketSession.sendText
          { s with signalingHandler := handler }) :=
        inv_sendTexts notifications ⟨hs.queue,hs.reading,hs.answered,hs.matched⟩
      simp only [WebsocketSession.onRead,Bool.false_eq_true,if_false,hresult]
      apply inv_doRead
      constructor
      case queue => exact admits_settled.push response hnotified.queue
      case reading => exact hnotified.reading
      case answered => exact hnotified.answered.append (List.Sublist.refl [response])
      case matched =>
        have hmatched := hnotified.matched
        simp only [WebsocketSession.sendText,List.length_append,List.length_singleton]
        omega

theorem inv_onWrite {s : WebsocketSession σ ξ τ} (h : Inv n s)
    (hqueue : s.writeBuffers.Stalled s.submitted) (ec : Bool) : Inv n (s.onWrite ec) := by
  cases ec with
  | true => exact inv_handleWsError h
  | false => exact ⟨.inl hqueue.pop,h.reading,h.answered,h.matched⟩

theorem inv_step (h : SignalingHandler σ ν ξ τ) {s : WebsocketSession σ ξ τ} (hs : Inv 1 s)
    (e : Event ν ξ) : Inv 1 (step h s e) := by
  have hreading := hs.reading
  cases e with
  | onAccept ec =>
      simp only [step]
      split
      · exact hs
      · have hnone : s.accepting-1+s.reading ≤ 0 := by omega
        have ht : Inv 0 { s with accepting := s.accepting-1 } :=
          ⟨hs.queue,hnone,hs.answered,hs.matched⟩
        exact inv_onAccept ht ec
  | onRead ec signaling =>
      simp only [step]
      split
      · exact hs
      · have hnone : s.accepting+(s.reading-1) ≤ 0 := by omega
        have ht : Inv 0 { s with reading := s.reading-1 } :=
          ⟨hs.queue,hnone,hs.answered,hs.matched⟩
        exact inv_onRead ht h ec signaling
  | onWrite ec =>
      simp only [step]
      split
      · exact hs
      · rename_i hbusy
        have hended := hs.queue.ended hbusy
        have ht : Inv 1 { s with writeBuffers := s.writeBuffers.ended } :=
          ⟨.inr hended,hreading,hs.answered,hs.matched⟩
        exact inv_onWrite ht hended ec
  | sendNotification notification =>
      simp only [step,WebsocketSession.sendNotification]
      split
      · exact hs
      · exact inv_sendText hs _

theorem inv_start (x : σ) : Inv 1 ({ signalingHandler := x } : WebsocketSession σ ξ τ) :=
  ⟨.inl writing_empty,Nat.le_refl 1,List.Sublist.refl [],rfl⟩

/-! ### What one event submits -/

/-- The session has gone from `s` to `t`, having submitted `ts` and read nothing. -/
structure Submits (s t : WebsocketSession σ ξ τ) (ts : List τ) : Prop where
  submitted : t.submitted = s.submitted++ts
  started : s.writeBuffers.started <+: t.writeBuffers.started
  requests : t.requests = s.requests
  responses : t.responses = s.responses

theorem submits_nil {s t : WebsocketSession σ ξ τ} (hsubmitted : t.submitted = s.submitted)
    (hstarted : s.writeBuffers.started <+: t.writeBuffers.started)
    (hrequests : t.requests = s.requests) (hresponses : t.responses = s.responses) :
    Submits s t [] :=
  ⟨hsubmitted.trans (List.append_nil _).symm,hstarted,hrequests,hresponses⟩

theorem submits_refl (s : WebsocketSession σ ξ τ) : Submits s s [] :=
  submits_nil rfl List.prefix_rfl rfl rfl

theorem submits_sendText (s : WebsocketSession σ ξ τ) (t : τ) : Submits s (s.sendText t) [t] :=
  ⟨rfl,started_push s.writeBuffers t,rfl,rfl⟩

theorem Submits.trans {s t u : WebsocketSession σ ξ τ} {ts ts' : List τ} (h : Submits s t ts)
    (h' : Submits t u ts') : Submits s u (ts++ts') where
  submitted := by rw [h'.submitted,h.submitted,List.append_assoc]
  started := h.started.trans h'.started
  requests := h'.requests.trans h.requests
  responses := h'.responses.trans h.responses

theorem submits_sendTexts (ts : List τ) (s : WebsocketSession σ ξ τ) :
    Submits s (ts.foldl WebsocketSession.sendText s) ts := by
  induction ts generalizing s with
  | nil => exact submits_refl s
  | cons t ts ih => exact (submits_sendText s t).trans (ih (s.sendText t))

/-- An event that reads no request submits notifications at most. -/
theorem step_submits (h : SignalingHandler σ ν ξ τ) (s : WebsocketSession σ ξ τ) (e : Event ν ξ)
    (he : ∀ signaling, e ≠ .onRead false signaling) :
    ∃ notifications : List ν, Submits s (step h s e) (notifications.map h.dump) := by
  cases e with
  | onAccept ec =>
      refine ⟨[],?_⟩
      simp only [step]
      split
      · exact submits_refl s
      · cases ec <;> exact submits_nil rfl List.prefix_rfl rfl rfl
  | onRead ec signaling =>
      cases ec with
      | false => exact absurd rfl (he signaling)
      | true =>
          refine ⟨[],?_⟩
          simp only [step]
          split
          · exact submits_refl s
          · exact submits_nil rfl List.prefix_rfl rfl rfl
  | onWrite ec =>
      refine ⟨[],?_⟩
      simp only [step]
      split
      · exact submits_refl s
      · cases ec with
        | false => exact submits_nil rfl (started_pop s.writeBuffers.ended) rfl rfl
        | true => exact submits_nil rfl List.prefix_rfl rfl rfl
  | sendNotification notification =>
      simp only [step,WebsocketSession.sendNotification]
      split
      · exact ⟨[],submits_refl s⟩
      · exact ⟨[notification],submits_sendText s (h.dump notification)⟩

/-- A request that is read is answered, behind the notifications that it causes. -/
theorem step_onRead (h : SignalingHandler σ ν ξ τ) {s : WebsocketSession σ ξ τ}
    (hs : s.reading ≠ 0) (signaling : ξ) :
    let r := h.handleSignaling s.signalingHandler signaling
    let t := step h s (.onRead false signaling)
    t.submitted = s.submitted++r.2.1++[r.2.2] ∧ t.requests = s.requests++[signaling] ∧
      t.responses = s.responses++[r.2.2] ∧
      s.writeBuffers.started <+: t.writeBuffers.started := by
  rcases hresult : h.handleSignaling s.signalingHandler signaling with
    ⟨handler,notifications,response⟩
  have hsubmits := submits_sendTexts notifications
    { s with signalingHandler := handler, reading := s.reading-1 }
  simp only [step,if_neg hs,WebsocketSession.onRead,Bool.false_eq_true,if_false,hresult]
  refine ⟨?_,?_,?_,?_⟩
  · exact congrArg (·++[response]) hsubmits.submitted
  · exact congrArg (·++[signaling]) hsubmits.requests
  · exact congrArg (·++[response]) hsubmits.responses
  · exact hsubmits.started.trans (started_push _ response)

/-- A session that has stalled, with the writes that it had begun by then. -/
def StalledAt (ts : List τ) (s : WebsocketSession σ ξ τ) : Prop :=
  s.writeBuffers.Stalled s.submitted ∧ s.writeBuffers.started = ts

theorem stalledAt_sendText {ts : List τ} {s : WebsocketSession σ ξ τ} (h : StalledAt ts s)
    (t : τ) : StalledAt ts (s.sendText t) :=
  ⟨h.1.push t,(h.1.push_started t).trans h.2⟩

theorem stalledAt_sendTexts {ts : List τ} (more : List τ) {s : WebsocketSession σ ξ τ}
    (h : StalledAt ts s) : StalledAt ts (more.foldl WebsocketSession.sendText s) := by
  induction more generalizing s with
  | nil => exact h
  | cons t more ih => exact ih (stalledAt_sendText h t)

theorem stalledAt_step (h : SignalingHandler σ ν ξ τ) {ts : List τ} {s : WebsocketSession σ ξ τ}
    (hs : StalledAt ts s) (e : Event ν ξ) : StalledAt ts (step h s e) := by
  cases e with
  | onAccept ec =>
      simp only [step]
      split
      · exact hs
      · cases ec <;> exact hs
  | onRead ec signaling =>
      simp only [step]
      split
      · exact hs
      · cases ec with
        | true => exact hs
        | false =>
            rcases hresult : h.handleSignaling s.signalingHandler signaling with
              ⟨handler,notifications,response⟩
            simp only [WebsocketSession.onRead,Bool.false_eq_true,if_false,hresult]
            exact stalledAt_sendText (stalledAt_sendTexts notifications
              (s := { s with signalingHandler := handler, reading := s.reading-1 }) hs) response
  | onWrite ec =>
      simp only [step]
      rw [if_pos hs.1.idle]
      exact hs
  | sendNotification notification =>
      simp only [step,WebsocketSession.sendNotification]
      split
      · exact hs
      · exact stalledAt_sendText hs _

/-- The session over any run: no two writes and no two reads are outstanding, texts are written
in the order in which they were submitted, each request has one response among them, and with
no write outstanding either all texts have been written or no other one ever will be. -/
theorem texts_in_order (h : SignalingHandler σ ν ξ τ) (x : σ) (es : List (Event ν ξ)) :
    let s := run (step h) { signalingHandler := x } es
    s.writeBuffers.outstanding.length ≤ 1 ∧ s.accepting+s.reading ≤ 1 ∧
      s.writeBuffers.started <+: s.submitted ∧ s.responses.Sublist s.submitted ∧
      s.responses.length = s.requests.length ∧
      (s.writeBuffers.outstanding = [] → s.writeBuffers.started = s.submitted ∨
        ∀ after, (run (step h) s after).writeBuffers.started = s.writeBuffers.started) := by
  have hinv := run_invariant (inv_start x) (fun _ e hs => inv_step h hs e) es
  refine ⟨admits_settled.length_le hinv.queue,hinv.reading,
    (admits_settled.ordered hinv.queue).begins,hinv.answered,hinv.matched,?_⟩
  intro hidle
  cases hinv.queue with
  | inl hwriting => exact .inl (hwriting.started_of_idle hidle)
  | inr hstalled =>
      refine .inr fun after => ?_
      exact (run_invariant (I := StalledAt _) ⟨hstalled,rfl⟩
        (fun _ e hs => stalledAt_step h hs e) after).2

end Ylrtc.Signaling.Websocket
