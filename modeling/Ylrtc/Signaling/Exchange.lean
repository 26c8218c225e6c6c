import Ylrtc.Signaling.Json
import Ylrtc.Signaling.WebsocketSession
import Mathlib.Data.List.Range

/-!
# Requests and promises

The client of `websdk/src/signaling.ts` and the session that serves it. The client keeps a
promise for each request under a transaction id that it draws, and the server gives the id back
with its response. The web socket keeps the order of the messages; a message is what the two
sides look at of its JSON object. All requests of the client have an action, so that their
transaction ids are read.
-/
namespace Ylrtc.Signaling.Exchange
open Run Websocket WriteQueue

variable {σ β ρ ν : Type}

structure Request (β : Type) where
  transactionId : Option Text
  body : β

/-- A message of the server. -/
inductive Signal (ρ ν : Type) where
  | response (transactionId : Option Text) (data : ρ)
  | notification (data : ν)

/-- `HandleSignaling` without the transaction ids, and `HijackNotification`. -/
structure Server (σ β ρ ν : Type) where
  respond : σ → β → σ × List ν × ρ
  hijackNotification : σ → ν → Bool

/-- `HandleSignaling` with the transaction ids. -/
def Server.handler (server : Server σ β ρ ν) :
    SignalingHandler σ ν (Request β) (Signal ρ ν) where
  handleSignaling s request :=
    let (s,notifications,data) := server.respond s request.body
    (s,notifications.map .notification,.response request.transactionId data)
  hijackNotification := server.hijackNotification
  dump := .notification

/-- The client, its promises numbered as they are made. -/
structure Client (ρ ν : Type) where
  promisePool : List (Text × ℕ) := []
  promises : ℕ := 0
  resolved : List (ℕ × ρ) := []
  dispatched : List (Signal ρ ν) := []

namespace Client

/-- The promise of `sendRequest`, under an id that is not in use. -/
def promise (c : Client ρ ν) (transactionId : Text) : Client ρ ν :=
  { c with
    promisePool := c.promisePool++[(transactionId,c.promises)]
    promises := c.promises+1 }

def onmessage (c : Client ρ ν) (signal : Signal ρ ν) : Client ρ ν :=
  match signal with
  | .notification _ | .response none _ => { c with dispatched := c.dispatched++[signal] }
  | .response (some transactionId) data =>
      match c.promisePool.lookup transactionId with
      | some n => { c with
          resolved := c.resolved++[(n,data)]
          promisePool := c.promisePool.filter fun p => p.1 ≠ transactionId }
      | none => c

end Client

/-- Both sides, what the client has sent, and how many messages it has received. -/
structure Peers (σ β ρ ν : Type) where
  client : Client ρ ν := {}
  sent : List (Request β) := []
  session : WebsocketSession σ (Request β) (Signal ρ ν)
  delivered : ℕ := 0

inductive Event (β ν : Type) where
  /-- `sendRequest`, with the id that it draws. -/
  | sendRequest (body : β) (transactionId : Text)
  /-- `_keepAlive`, a request without a promise. -/
  | keepAlive (body : β)
  /-- The server reads the next message. -/
  | read
  /-- What else happens to the session. -/
  | onAccept (ec : Bool)
  | readError
  | onWrite (ec : Bool)
  | sendNotification (notification : ν)
  /-- The client receives the next message. -/
  | deliver

variable (server : Server σ β ρ ν)

def Peers.onSession (s : Peers σ β ρ ν) (e : Websocket.Event ν (Request β)) :
    Peers σ β ρ ν := { s with session := Websocket.step server.handler s.session e }

/-- An id that is in use is drawn anew. -/
def step (s : Peers σ β ρ ν) : Event β ν → Peers σ β ρ ν
  | .sendRequest body transactionId =>
      if transactionId ∈ s.client.promisePool.map Prod.fst then s
      else { s with
        client := s.client.promise transactionId
        sent := s.sent++[⟨some transactionId,body⟩] }
  | .keepAlive body => { s with sent := s.sent++[⟨none,body⟩] }
  | .read =>
      match s.sent[s.session.requests.length]? with
      | some request => s.onSession server (.onRead false request)
      | none => s
  | .onAccept ec => s.onSession server (.onAccept ec)
  | .readError =>
      match s.sent[s.session.requests.length]? with
      | some request => s.onSession server (.onRead true request)
      | none => s
  | .onWrite ec => s.onSession server (.onWrite ec)
  | .sendNotification notification => s.onSession server (.sendNotification notification)
  | .deliver =>
      match s.session.writeBuffers.started[s.delivered]? with
      | some signal => { s with client := s.client.onmessage signal, delivered := s.delivered+1 }
      | none => s

/-! ### What is on its way -/

/-- A response to a request with a promise. -/
def Signal.answer : Signal ρ ν → Option (Text × ρ)
  | .response (some transactionId) data => some (transactionId,data)
  | _ => none

/-- The responses to requests with promises. -/
def answers (signals : List (Signal ρ ν)) : List (Text × ρ) := signals.filterMap Signal.answer

/-- The transaction ids of requests. -/
def asked (requests : List (Request β)) : List Text := requests.filterMap Request.transactionId

theorem answers_append (signals signals' : List (Signal ρ ν)) :
    answers (signals++signals') = answers signals++answers signals' := List.filterMap_append

theorem asked_append (requests requests' : List (Request β)) :
    asked (requests++requests') = asked requests++asked requests' := List.filterMap_append

theorem answers_notifications (notifications : List ν) :
    answers (notifications.map (Signal.notification (ρ := ρ))) = [] := by
  induction notifications with
  | nil => rfl
  | cons _ _ ih => exact ih

/-- What the two sides and the messages between them have in common. The pool holds the ids
that are on their way, in their order. -/
structure Inv (s : Peers σ β ρ ν) : Prop where
  session : Websocket.Inv 1 s.session
  served : s.session.requests <+: s.sent
  received : s.delivered ≤ s.session.writeBuffers.started.length
  answered : answers s.session.submitted = answers s.session.responses
  echoed : (answers s.session.responses).map Prod.fst = asked s.session.requests
  pool : s.client.promisePool.map Prod.fst =
    (answers (s.session.submitted.drop s.delivered)).map Prod.fst++
      asked (s.sent.drop s.session.requests.length)
  distinct : (s.client.promisePool.map Prod.fst).Nodup
  numbered : s.client.promisePool.map Prod.snd =
    List.range' s.client.resolved.length s.client.promisePool.length
  promises : s.client.promises = s.client.resolved.length+s.client.promisePool.length
  inOrder : s.client.resolved.map Prod.fst = List.range s.client.resolved.length
  given : s.client.resolved.map Prod.snd =
    (answers (s.session.submitted.take s.delivered)).map Prod.snd

theorem inv_start (x : σ) : Inv ({ session := { signalingHandler := x } } : Peers σ β ρ ν) :=
  ⟨Websocket.inv_start x,List.prefix_rfl,Nat.le_refl 0,rfl,rfl,rfl,List.nodup_nil,rfl,rfl,rfl,rfl⟩

variable {server} {s : Peers σ β ρ ν}

theorem Inv.begun (h : Inv s) : s.session.writeBuffers.started <+: s.session.submitted :=
  (admits_settled.ordered h.session.queue).begins

theorem Inv.received_submitted (h : Inv s) : s.delivered ≤ s.session.submitted.length :=
  h.received.trans h.begun.length_le

/-- Notifications have nothing to do with promises. -/
theorem Inv.submits (h : Inv s) {t : WebsocketSession σ (Request β) (Signal ρ ν)}
    (ht : Websocket.Inv 1 t) {notifications : List ν}
    (hsubmits : Submits s.session t (notifications.map .notification)) :
    Inv { s with session := t } := by
  have hreceived := h.received_submitted
  constructor
  case session => exact ht
  case served =>
    show t.requests <+: s.sent
    rw [hsubmits.requests]
    exact h.served
  case received => exact h.received.trans hsubmits.started.length_le
  case answered =>
    show answers t.submitted = answers t.responses
    rw [hsubmits.submitted,hsubmits.responses,answers_append,answers_notifications,
      List.append_nil]
    exact h.answered
  case echoed =>
    show (answers t.responses).map Prod.fst = asked t.requests
    rw [hsubmits.responses,hsubmits.requests]
    exact h.echoed
  case pool =>
    show _ = (answers (t.submitted.drop s.delivered)).map Prod.fst++asked (s.sent.drop t.requests.length)
    rw [hsubmits.submitted,hsubmits.requests,List.drop_append_of_le_length hreceived,
      answers_append,answers_notifications,List.append_nil]
    exact h.pool
  case distinct => exact h.distinct
  case numbered => exact h.numbered
  case promises => exact h.promises
  case inOrder => exact h.inOrder
  case given =>
    show _ = (answers (t.submitted.take s.delivered)).map Prod.snd
    rw [hsubmits.submitted,List.take_append_of_le_length hreceived]
    exact h.given

/-- An event of the session that reads no request. -/
theorem Inv.onSession (h : Inv s) {e : Websocket.Event ν (Request β)}
    (he : ∀ request, e ≠ .onRead false request) : Inv (s.onSession server e) := by
  obtain ⟨notifications,hsubmits⟩ := step_submits server.handler s.session e he
  exact h.submits (Websocket.inv_step server.handler h.session e) hsubmits

/-- The id of a request goes from the messages of the client to those of the server. -/
theorem Inv.read (h : Inv s) (hreading : s.session.reading ≠ 0) {request : Request β}
    (hnext : s.sent[s.session.requests.length]? = some request) :
    Inv (s.onSession server (.onRead false request)) := by
  obtain ⟨hlt,hget⟩ := List.getElem?_eq_some_iff.mp hnext
  have hdrop : s.sent.drop s.session.requests.length =
      request::s.sent.drop (s.session.requests.length+1) := by
    rw [← hget]
    exact List.drop_eq_getElem_cons hlt
  have hreceived := h.received_submitted
  rcases hresult : server.respond s.session.signalingHandler request.body with
    ⟨state,notifications,data⟩
  have hhandle : server.handler.handleSignaling s.session.signalingHandler request =
      (state,notifications.map .notification,.response request.transactionId data) := by
    simp only [Server.handler,hresult]
  have hread := step_onRead server.handler hreading request
  simp only [hhandle] at hread
  have ht := Websocket.inv_step server.handler h.session (.onRead false request)
  unfold Peers.onSession
  generalize Websocket.step server.handler s.session (.onRead false request) = t at hread ht
  obtain ⟨hsubmitted,hrequests,hresponses,hstarted⟩ := hread
  have hanswers : answers [Signal.response (ν := ν) request.transactionId data] =
      request.transactionId.toList.map fun id => (id,data) := by
    cases request.transactionId <;> rfl
  have hasked : asked [request] = request.transactionId.toList := by
    cases hid : request.transactionId <;> simp [asked,hid]
  have hfst (ids : List Text) : (ids.map fun id => (id,data)).map Prod.fst = ids := by
    rw [List.map_map]
    exact List.map_id ids
  constructor
  case session => exact ht
  case served =>
    show t.requests <+: s.sent
    rw [hrequests,List.prefix_iff_eq_take.mp h.served,← hget,List.take_concat_get' _ _ hlt]
    exact List.take_prefix _ _
  case received => exact h.received.trans hstarted.length_le
  case answered =>
    show answers t.submitted = answers t.responses
    rw [hsubmitted,hresponses,answers_append,answers_append,answers_append,
      answers_notifications,List.append_nil,h.answered]
  case echoed =>
    show (answers t.responses).map Prod.fst = asked t.requests
    rw [hresponses,hrequests,answers_append,asked_append,List.map_append,h.echoed,hanswers,
      hasked,hfst]
  case pool =>
    show _ = (answers (t.submitted.drop s.delivered)).map Prod.fst++asked (s.sent.drop t.requests.length)
    rw [hsubmitted,hrequests,List.append_assoc,List.drop_append_of_le_length hreceived,
      answers_append,answers_append,answers_notifications,List.nil_append,hanswers,
      List.map_append,hfst,List.length_append,List.length_singleton,List.append_assoc,
      ← hasked,← asked_append,List.singleton_append,← hdrop]
    exact h.pool
  case distinct => exact h.distinct
  case numbered => exact h.numbered
  case promises => exact h.promises
  case inOrder => exact h.inOrder
  case given =>
    show _ = (answers (t.submitted.take s.delivered)).map Prod.snd
    rw [hsubmitted,List.append_assoc,List.take_append_of_le_length hreceived]
    exact h.given

theorem Inv.send (h : Inv s) (request : Request β) (client : Client ρ ν)
    (hpool : client.promisePool = s.client.promisePool++
      request.transactionId.toList.map fun id => (id,s.client.promises))
    (hpromises : client.promises = s.client.promises+request.transactionId.toList.length)
    (hresolved : client.resolved = s.client.resolved)
    (hfresh : ∀ id ∈ request.transactionId.toList, id ∉ s.client.promisePool.map Prod.fst) :
    Inv { s with client := client, sent := s.sent++[request] } := by
  have hle := h.served.length_le
  have hasked : asked [request] = request.transactionId.toList := by
    cases hid : request.transactionId <;> simp [asked,hid]
  have hfst : client.promisePool.map Prod.fst =
      s.client.promisePool.map Prod.fst++request.transactionId.toList := by
    rw [hpool,List.map_append,List.map_map]
    exact congrArg (s.client.promisePool.map Prod.fst++·) (List.map_id _)
  have hlength : client.promisePool.length =
      s.client.promisePool.length+request.transactionId.toList.length := by
    rw [hpool,List.length_append,List.length_map]
  constructor
  case session => exact h.session
  case served => exact h.served.trans (List.prefix_append _ _)
  case received => exact h.received
  case answered => exact h.answered
  case echoed => exact h.echoed
  case pool =>
    show client.promisePool.map Prod.fst = _++asked ((s.sent++[request]).drop _)
    rw [hfst,h.pool,List.drop_append_of_le_length hle,asked_append,hasked,List.append_assoc]
  case distinct =>
    show (client.promisePool.map Prod.fst).Nodup
    rw [hfst]
    cases hid : request.transactionId with
    | none => rw [Option.toList_none,List.append_nil]; exact h.distinct
    | some id =>
        rw [hid] at hfresh
        exact List.nodup_append_comm.mpr
          (List.nodup_cons.mpr ⟨hfresh id List.mem_cons_self,h.distinct⟩)
  case numbered =>
    show client.promisePool.map Prod.snd = List.range' client.resolved.length client.promisePool.length
    rw [hresolved,hlength,hpool,List.map_append,h.numbered,h.promises]
    cases request.transactionId with
    | none => exact List.append_nil _
    | some id => exact List.range'_1_concat.symm
  case promises =>
    show client.promises = client.resolved.length+client.promisePool.length
    rw [hpromises,hresolved,hlength,h.promises,Nat.add_assoc]
  case inOrder =>
    show client.resolved.map Prod.fst = List.range client.resolved.length
    rw [hresolved]
    exact h.inOrder
  case given =>
    show client.resolved.map Prod.snd = _
    rw [hresolved]
    exact h.given

/-- The message that the client receives is the next one that the session has submitted. -/
theorem Inv.next (h : Inv s) {signal : Signal ρ ν}
    (hnext : s.session.writeBuffers.started[s.delivered]? = some signal) :
    s.session.submitted.drop s.delivered = signal::s.session.submitted.drop (s.delivered+1) ∧
      s.session.submitted.take (s.delivered+1) = s.session.submitted.take s.delivered++[signal] ∧
      s.delivered+1 ≤ s.session.writeBuffers.started.length := by
  obtain ⟨hlt,_⟩ := List.getElem?_eq_some_iff.mp hnext
  have hsubmitted : s.session.submitted[s.delivered]? = some signal := by
    obtain ⟨rest,hrest⟩ := h.begun
    rw [← hrest,List.getElem?_append_left hlt,hnext]
  obtain ⟨hlt',hget'⟩ := List.getElem?_eq_some_iff.mp hsubmitted
  refine ⟨?_,?_,hlt⟩
  · rw [← hget']
    exact List.drop_eq_getElem_cons hlt'
  · rw [← hget']
    exact (List.take_concat_get' _ _ hlt').symm

/-- A message without an answer leaves the promises alone. -/
theorem Inv.skip (h : Inv s) {signal : Signal ρ ν} (hanswer : signal.answer = none)
    (hnext : s.session.writeBuffers.started[s.delivered]? = some signal) (client : Client ρ ν)
    (hpool : client.promisePool = s.client.promisePool)
    (hpromises : client.promises = s.client.promises)
    (hresolved : client.resolved = s.client.resolved) :
    Inv { s with client := client, delivered := s.delivered+1 } := by
  obtain ⟨hdrop,htake,hle⟩ := h.next hnext
  have hanswers (rest : List (Signal ρ ν)) : answers (signal::rest) = answers rest :=
    List.filterMap_cons_none hanswer
  constructor
  case session => exact h.session
  case served => exact h.served
  case received => exact hle
  case answered => exact h.answered
  case echoed => exact h.echoed
  case pool =>
    show client.promisePool.map Prod.fst = _
    rw [hpool,h.pool,hdrop,hanswers]
  case distinct =>
    show (client.promisePool.map Prod.fst).Nodup
    rw [hpool]
    exact h.distinct
  case numbered =>
    show client.promisePool.map Prod.snd = List.range' client.resolved.length client.promisePool.length
    rw [hpool,hresolved]
    exact h.numbered
  case promises =>
    show client.promises = client.resolved.length+client.promisePool.length
    rw [hpromises,hpool,hresolved]
    exact h.promises
  case inOrder =>
    show client.resolved.map Prod.fst = List.range client.resolved.length
    rw [hresolved]
    exact h.inOrder
  case given =>
    show client.resolved.map Prod.snd = (answers (s.session.submitted.take (s.delivered+1))).map Prod.snd
    rw [hresolved,htake,answers_append,hanswers,h.given]
    exact congrArg _ (List.append_nil _).symm

/-- An answer finds the oldest promise that is pending. -/
theorem Inv.resolve (h : Inv s) {id : Text} {data : ρ} (hnext :
    s.session.writeBuffers.started[s.delivered]? = some (.response (some id) data)) :
    Inv { s with client := s.client.onmessage (.response (some id) data)
                 delivered := s.delivered+1 } := by
  obtain ⟨hdrop,htake,hle⟩ := h.next hnext
  have hanswers (rest : List (Signal ρ ν)) :
      answers (Signal.response (some id) data::rest) = (id,data)::answers rest := rfl
  have hids := h.pool
  rw [hdrop,hanswers,List.map_cons,List.cons_append] at hids
  rcases hpool : s.client.promisePool with _ | ⟨⟨id',n⟩,pool⟩
  · rw [hpool] at hids
    cases hids
  rw [hpool,List.map_cons] at hids
  obtain ⟨hid,htail⟩ := List.cons.inj hids
  obtain rfl : id' = id := hid
  have hnumbered := h.numbered
  rw [hpool,List.map_cons,List.length_cons,List.range'_succ] at hnumbered
  obtain ⟨hn,hnumbered⟩ := List.cons.inj hnumbered
  have hdistinct := h.distinct
  rw [hpool,List.map_cons,List.nodup_cons] at hdistinct
  have hfilter : ((id',n)::pool).filter (fun p => p.1 ≠ id') = pool := by
    rw [List.filter_cons_of_neg (by simp)]
    apply List.filter_eq_self.mpr
    intro p hp
    rw [decide_eq_true_iff]
    rintro rfl
    exact hdistinct.1 (List.mem_map.mpr ⟨p,hp,rfl⟩)
  have hmessage : s.client.onmessage (.response (some id') data) = { s.client with
      resolved := s.client.resolved++[(n,data)], promisePool := pool } := by
    simp only [Client.onmessage,hpool,List.lookup_cons,beq_self_eq_true,hfilter]
  have hpromises := h.promises
  rw [hpool,List.length_cons] at hpromises
  rw [hmessage]
  constructor
  case session => exact h.session
  case served => exact h.served
  case received => exact hle
  case answered => exact h.answered
  case echoed => exact h.echoed
  case pool => exact htail
  case distinct => exact hdistinct.2
  case numbered =>
    show pool.map Prod.snd = List.range' (s.client.resolved++[(n,data)]).length pool.length
    rw [List.length_append,List.length_singleton]
    exact hnumbered
  case promises =>
    show s.client.promises = (s.client.resolved++[(n,data)]).length+pool.length
    rw [List.length_append,List.length_singleton,hpromises]
    omega
  case inOrder =>
    show (s.client.resolved++[(n,data)]).map Prod.fst =
      List.range (s.client.resolved++[(n,data)]).length
    rw [List.map_append,List.length_append,List.length_singleton,List.range_succ,h.inOrder]
    exact congrArg (List.range _++[·]) hn
  case given =>
    show (s.client.resolved++[(n,data)]).map Prod.snd =
      (answers (s.session.submitted.take (s.delivered+1))).map Prod.snd
    rw [htake,answers_append,List.map_append,List.map_append,h.given]
    rfl

theorem Inv.step (h : Inv s) (e : Event β ν) : Inv (step server s e) := by
  cases e with
  | sendRequest body id =>
      simp only [Exchange.step]
      split
      · exact h
      · rename_i hfresh
        refine h.send ⟨some id,body⟩ (s.client.promise id) rfl rfl rfl fun id' hid' => ?_
        rw [List.mem_singleton.mp hid']
        exact hfresh
  | keepAlive body =>
      exact h.send ⟨none,body⟩ s.client (List.append_nil _).symm rfl rfl
        fun id hid => absurd hid List.not_mem_nil
  | read =>
      simp only [Exchange.step]
      split
      · rename_i request hnext
        by_cases hreading : s.session.reading = 0
        · rw [Peers.onSession,Websocket.step,if_pos hreading]
          exact h
        · exact h.read hreading hnext
      · exact h
  | onAccept ec => exact h.onSession fun _ he => by cases he
  | readError =>
      simp only [Exchange.step]
      split
      · exact h.onSession fun _ he => by cases he
      · exact h
  | onWrite ec => exact h.onSession fun _ he => by cases he
  | sendNotification notification => exact h.onSession fun _ he => by cases he
  | deliver =>
      simp only [Exchange.step]
      split
      · rename_i signal hnext
        cases signal with
        | notification data => exact h.skip rfl hnext _ rfl rfl rfl
        | response id data =>
            cases id with
            | none => exact h.skip rfl hnext _ rfl rfl rfl
            | some id => exact h.resolve hnext
      · exact h

theorem inv_run (server : Server σ β ρ ν) (x : σ) (es : List (Event β ν)) :
    Inv (run (step server) { session := { signalingHandler := x } } es) :=
  run_invariant (inv_start x) (fun _ e h => h.step e) es

/-- Each promise belongs to a request that was sent. -/
theorem Inv.promises_asked (h : Inv s) : s.client.promises = (asked s.sent).length := by
  have hpool := congrArg List.length h.pool
  have hgiven := congrArg List.length h.given
  have hechoed := congrArg List.length h.echoed
  have hanswers := congrArg (fun signals => (answers signals).length)
    (List.take_append_drop s.delivered s.session.submitted)
  have hasked := congrArg (fun requests => (asked requests).length)
    (List.take_append_drop s.session.requests.length s.sent)
  simp only [answers_append,asked_append,List.length_append,List.length_map,h.answered,
    ← List.prefix_iff_eq_take.mp h.served] at hpool hgiven hechoed hanswers hasked
  have hpromises := h.promises
  omega

/-- Promises are resolved once each and in the order in which they were made, the nth one with
the response to the nth request that has a promise. Once all that was sent either way has
arrived, none is pending. -/
theorem promises_kept (server : Server σ β ρ ν) (x : σ) (es : List (Event β ν)) :
    let s := run (step server) { session := { signalingHandler := x } } es
    s.client.resolved.map Prod.fst = List.range s.client.resolved.length ∧
      s.client.resolved.map Prod.snd <+: (answers s.session.responses).map Prod.snd ∧
      (answers s.session.responses).map Prod.fst = asked s.session.requests ∧
      s.session.requests <+: s.sent ∧ s.client.promises = (asked s.sent).length ∧
      s.client.promisePool.map Prod.snd =
        List.range' s.client.resolved.length (s.client.promises-s.client.resolved.length) ∧
      (s.session.requests = s.sent → s.delivered = s.session.submitted.length →
        s.client.promisePool = []) := by
  have h := inv_run server x es
  generalize run (step server) { session := { signalingHandler := x } } es = s at h
  refine ⟨h.inOrder,?_,h.echoed,h.served,h.promises_asked,?_,?_⟩
  · rw [h.given,← h.answered]
    exact ((List.take_prefix _ _).filterMap _).map _
  · rw [h.numbered,h.promises,Nat.add_sub_cancel_left]
  · intro hserved hdelivered
    have hpool := h.pool
    rw [hserved,hdelivered,List.drop_length,List.drop_length] at hpool
    exact List.map_eq_nil_iff.mp hpool

end Ylrtc.Signaling.Exchange
