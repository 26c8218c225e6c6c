import Ylrtc.Signaling.Exchange
import Ylrtc.Signaling.Responses

/-!
# Transaction ids and the handler

The handler does with a request that has a transaction id what it does without, and puts the id
in front of its response. So it serves an exchange, in which ids are kept apart from what the
requests ask for.
-/
namespace Ylrtc.Signaling
open CursorParser Prog

variable {J : JsonLibrary} {ε α β : Type}

namespace Handler

/-- More members at the front of the response. -/
def front (ms : List (String × J.Json)) (h : Handler J) : Handler J :=
  { h with response := ms++h.response }

/-- The program does the same with more at the front of the response, and leaves it there. -/
def Fronted (m : Prog (Handler J) ε α) : Prop :=
  ∀ ms h, m (front ms h) = ((m h).1,front ms (m h).2)

theorem fronted_pure (a : α) : Fronted (pure a : Prog (Handler J) ε α) := fun _ _ => rfl

theorem fronted_lib {x : Except J.Error α} :
    Fronted (lib x : Prog (Handler J) (Exc J) α) := fun _ _ => rfl

theorem fronted_bind {m : Prog (Handler J) ε α} {f : α → Prog (Handler J) ε β}
    (hm : Fronted m) (hf : ∀ a, Fronted (f a)) : Fronted (m >>= f) := by
  intro ms h
  have hms := hm ms h
  rcases hr : m h with ⟨e | a,t⟩
  · rw [hr] at hms
    rw [bind_error hms,bind_error hr]
  · rw [hr] at hms
    rw [bind_ok hms,bind_ok hr]
    exact hf a ms t

/-- What is read of the state is not the response. -/
theorem fronted_get_bind {f : Handler J → Prog (Handler J) ε β} (hf : ∀ h, Fronted (f h))
    (hsame : ∀ ms h, f (front ms h) = f h) : Fronted (get >>= f) := by
  intro ms h
  rw [get_bind,get_bind,hsame]
  exact hf h ms h

theorem fronted_modify {f : Handler J → Handler J} (hf : ∀ ms h, f (front ms h) = front ms (f h)) :
    Fronted (modify f : Prog (Handler J) ε Unit) :=
  fun ms h => congrArg (Prod.mk (Except.ok ())) (hf ms h)

theorem fronted_respond (key : String) (value : J.Json) :
    Fronted (respond key value : Prog (Handler J) ε Unit) := by
  refine fronted_modify fun ms h => ?_
  simp only [front,List.append_assoc]

theorem fronted_onStream (id : Id) (m : Prog (StreamData J) ε α) : Fronted (onStream id m) :=
  fun _ _ => rfl

theorem Fronted.mapError {δ : Type} {m : Prog (Handler J) ε α} (hm : Fronted m) (f : ε → δ) :
    Fronted (m.mapError f) := by
  intro ms h
  have hms := hm ms h
  rw [Prog.mapError,Prog.mapError,hms]
  rcases m h with ⟨_ | _,t⟩ <;> rfl

theorem fronted_isolated {τ : Type} (n : τ) (m : Prog τ ε α) :
    Fronted (isolated n m : Prog (Handler J) ε (α × τ)) := by
  intro ms h
  rw [isolated,isolated]
  rcases m n with ⟨_ | _,t⟩ <;> rfl

section Actions
variable {env : Environment} {request : J.Json}

theorem fronted_participantPublish (roomId : Id) (room : Room) (participantId : Id)
    (offer : Text) : Fronted (participantPublish env roomId room participantId offer :
      Prog (Handler J) (Exc J) (Option Id)) := by
  rw [participantPublish]
  cases room.participantPublish participantId env.streamId with
  | none => exact fronted_pure _
  | some room =>
      refine fronted_bind (fronted_isolated _ _) fun accepted => ?_
      dsimp only
      split
      · exact fronted_bind (fronted_modify fun _ _ => rfl) fun _ => fronted_pure _
      · exact fronted_pure _

theorem fronted_participantSubscribe (roomId : Id) (room : Room)
    (srcParticipantId dstParticipantId publish : Id) (offer : Text) :
    Fronted (participantSubscribe env roomId room srcParticipantId dstParticipantId publish
      offer : Prog (Handler J) (Exc J) (Option Id)) := by
  rw [participantSubscribe]
  cases room.participantSubscribe srcParticipantId dstParticipantId publish env.streamId with
  | none => exact fronted_pure _
  | some r =>
      refine fronted_get_bind (fun h => fronted_bind (fronted_isolated _ _) fun accepted => ?_)
        fun _ _ => rfl
      dsimp only
      split
      · exact fronted_bind (fronted_modify fun _ _ => rfl) fun _ => fronted_pure _
      · exact fronted_pure _

theorem fronted_publishStream : Fronted (publishStream env request) := by
  refine fronted_get_bind (fun h => ?_) fun _ _ => rfl
  split
  · refine fronted_bind fronted_lib fun offer =>
      fronted_bind (fronted_participantPublish _ _ _ offer) fun id => ?_
    cases id <;> exact fronted_pure _
  · exact fronted_pure _

theorem fronted_subscribeStream : Fronted (subscribeStream env request) := by
  refine fronted_bind fronted_lib fun streamId => fronted_bind fronted_lib fun offer =>
    fronted_bind fronted_lib fun participantId => fronted_get_bind (fun h => ?_) fun _ _ => rfl
  split
  · refine fronted_bind (fronted_participantSubscribe _ _ _ participantId streamId offer)
      fun id => ?_
    cases id <;> exact fronted_pure _
  · exact fronted_pure _

theorem fronted_complete (failed : YlError) (id : Id)
    (createAnswer : Prog (SdpNegotiator J) (Fault (Exc J)) (Option Text))
    (setLocalDescription : Prog (StreamData J) (Fault (Exc J)) Unit) :
    Fronted (complete failed id createAnswer setLocalDescription) := by
  refine fronted_bind (fronted_respond _ _) fun _ =>
    fronted_bind (fronted_onStream _ _) fun answer => ?_
  cases answer with
  | none => exact fronted_pure _
  | some answer =>
      exact fronted_bind (fronted_respond _ _) fun _ =>
        fronted_bind (fronted_onStream _ _) fun _ => fronted_pure _

theorem fronted_join : Fronted (join env request) := by
  refine fronted_bind fronted_lib fun roomId => fronted_bind fronted_lib fun participantId =>
    fronted_get_bind (fun h => ?_) fun _ _ => rfl
  split
  · exact fronted_bind (fronted_modify fun _ _ => rfl) fun _ =>
      fronted_bind (fronted_respond _ _) fun _ => fronted_pure _
  · exact fronted_pure _

theorem fronted_muteOrUnmute : Fronted (muteOrUnmute request) := by
  refine fronted_bind (fronted_lib.mapError _) fun streamId =>
    fronted_bind (fronted_lib.mapError _) fun muted =>
    fronted_bind (fronted_lib.mapError _) fun type =>
    fronted_get_bind (fun h => ?_) fun _ _ => rfl
  split
  · split
    · exact fronted_bind (fronted_onStream _ _) fun _ => fronted_pure _
    · exact fronted_pure _
  · exact fronted_pure _

theorem fronted_changeSimulcastLayer : Fronted (changeSimulcastLayer request) := by
  refine fronted_bind fronted_lib fun streamId => fronted_bind fronted_lib fun layer =>
    fronted_get_bind (fun h => ?_) fun _ _ => rfl
  split
  · split
    · refine fronted_bind (fun _ _ => rfl) fun rid => ?_
      exact fronted_bind (fronted_modify fun _ _ => rfl) fun _ => fronted_pure _
    · exact fronted_pure _
  · exact fronted_pure _

theorem fronted_act (action : Text) : Fronted (act env action request) := by
  have hregistered {register : Prog (Handler J) (Exc J) (YlError ⊕ Id)}
      {next : YlError ⊕ Id → Prog (Handler J) (Fault (Exc J)) YlError} (hr : Fronted register)
      (hinr : ∀ id, Fronted (next (.inr id))) (hinl : ∀ error, Fronted (next (.inl error))) :
      Fronted (safe register >>= next) := by
    refine fronted_bind (hr.mapError _) fun r => ?_
    cases r with
    | inl error => exact hinl error
    | inr id => exact hinr id
  rw [act]
  split
  · exact hregistered fronted_subscribeStream (fun id => fronted_complete _ id _ _)
      fun _ => fronted_pure _
  split
  · exact hregistered fronted_publishStream (fun id => fronted_complete _ id _ _)
      fun _ => fronted_pure _
  split
  · exact fronted_join.mapError _
  split
  · exact fronted_muteOrUnmute
  split
  · exact fronted_bind (fronted_modify fun _ _ => rfl) fun _ => fronted_pure _
  split
  · exact fronted_changeSimulcastLayer.mapError _
  · exact fronted_pure _

end Actions

/-! ### The same request with and without an id -/

/-- Two requests that differ in nothing but their transaction ids. -/
def SameBody (J : JsonLibrary) (request request' : J.Json) : Prop :=
  ∀ key, key ≠ "transactionId" → J.atKey request key = J.atKey request' key

theorem SameBody.textAt {request request' : J.Json} (h : SameBody J request request')
    {key : String} (hkey : key ≠ "transactionId") : textAt request key = textAt request' key := by
  rw [Signaling.textAt,h key hkey]
  rfl

/-- No action looks at the transaction id. -/
theorem SameBody.act {request request' : J.Json} (h : SameBody J request request')
    (env : Environment) (action : Text) : act env action request = act env action request' := by
  have hkeys : ∀ key ∈ ["streamId","offer","participantId","roomId","type",
      "subscribeStreamId","simulcastLayer"], Signaling.textAt request key =
        Signaling.textAt request' key := by
    intro key hkey
    refine h.textAt ?_
    rintro rfl
    exact absurd hkey (by decide)
  simp only [List.forall_mem_cons] at hkeys
  obtain ⟨hstream,hoffer,hparticipant,hroom,htype,hsubscribe,hlayer,_⟩ := hkeys
  have hmuted := h "muted" (by decide)
  have hsubscribeStream : subscribeStream env request = subscribeStream env request' := by
    rw [subscribeStream,subscribeStream,hstream,hoffer,hparticipant]
  have hpublishStream : publishStream env request = publishStream env request' := by
    rw [publishStream,publishStream,hoffer]
  have hjoin : join env request = join env request' := by
    rw [join,join,hroom,hparticipant]
  have hmute : muteOrUnmute request = muteOrUnmute request' := by
    rw [muteOrUnmute,muteOrUnmute,hstream,htype,hmuted]
  have hchange : changeSimulcastLayer request = changeSimulcastLayer request' := by
    rw [changeSimulcastLayer,changeSimulcastLayer,hsubscribe,hlayer]
  rw [Handler.act,Handler.act,subscribe,subscribe,publish,publish,hsubscribeStream,
    hpublishStream,hjoin,hmute,hchange]

/-- What the handler does with a request that was read. -/
def reply (env : Environment) (action : Text) (request : J.Json) :
    Prog (Handler J) (Fault (Exc J)) Bool :=
  catchThrown (do
    let result ← act env action request
    respond "error" (J.ofBool (result != .kOk))
    respond "detail" (J.ofText (ylErrorToString result))
    pure (result != .kOk)) fun e => do
      respond "error" (J.ofBool true)
      respond "detail" (J.ofText (text "Bad request. Reason: "++e.what++text "."))
      pure true

theorem answer_eq_reply {env : Environment} {signaling action : Text} {request : J.Json}
    {h t : Handler J} (hr : readRequest signaling h = (.ok (action,request),t)) :
    answer env signaling h = reply env action request t := by
  rw [answer,reply,catchThrown,catchThrown,bind_ok (safe_eq_ok.mpr hr)]

theorem fronted_catchThrown {m : Prog (Handler J) (Fault ε) α}
    {handler : ε → Prog (Handler J) (Fault ε) α} (hm : Fronted m)
    (hhandler : ∀ e, Fronted (handler e)) : Fronted (m.catchThrown handler) := by
  intro ms h
  rw [catchThrown,catchThrown,hm ms h]
  rcases m h with ⟨(e | _) | _,t⟩
  · exact hhandler e ms t
  · rfl
  · rfl

theorem fronted_reply (env : Environment) (action : Text) (request : J.Json) :
    Fronted (reply env action request) :=
  fronted_catchThrown
    (fronted_bind (fronted_act action) fun _ => fronted_bind (fronted_respond _ _) fun _ =>
      fronted_bind (fronted_respond _ _) fun _ => fronted_pure _)
    fun _ => fronted_bind (fronted_respond _ _) fun _ =>
      fronted_bind (fronted_respond _ _) fun _ => fronted_pure _

/-- A text is read as a request with an action, and what it says of a transaction id. -/
structure Reads (J : JsonLibrary) (signaling action : Text) (request : J.Json)
    (id : Option J.Json) : Prop where
  parse : J.parse signaling = .ok request
  action : textAt request "action" = .ok action
  has : has request "transactionId" = id.isSome
  atKey : ∀ v, id = some v → J.atKey request "transactionId" = .ok v

theorem Reads.readRequest {signaling action : Text} {request : J.Json} {id : Option J.Json}
    (hreads : Reads J signaling action request id) (h : Handler J) :
    readRequest signaling { h with response := [] } = (.ok (action,request),
      { h with response := (id.map fun v => ("transactionId",v)).toList }) := by
  rw [Handler.readRequest,bind_ok (lib_eq_ok.mpr ⟨hreads.parse,rfl⟩),
    bind_ok (lib_eq_ok.mpr ⟨hreads.action,rfl⟩),hreads.has]
  cases id with
  | none => rfl
  | some v =>
      rw [if_pos Option.isSome_some,bind_ok (lib_eq_ok.mpr ⟨hreads.atKey v rfl,rfl⟩)]
      rfl

/-- The handler as the server of an exchange; what is asked for is the text of a request
without an id. -/
def server (J : JsonLibrary) : Exchange.Server (Handler J) (Environment × Text)
    (Except (Fault (Exc J)) Bool × List (String × J.Json)) Unit where
  respond h body :=
    let (result,t) := answer body.1 body.2 { h with response := [] }
    ({ t with response := [] },[],(result,t.response))
  hijackNotification _ _ := false

/-- What the server of the exchange answers to a request with an id, the handler answers to the
text of that request: the same result in the same state, and the members that the server gives
behind the id. -/
theorem answer_transactionId (env : Environment) {signaling signaling' action id : Text}
    {request request' : J.Json} (hreads : Reads J signaling action request (some (J.ofText id)))
    (hreads' : Reads J signaling' action request' none) (hbody : SameBody J request request')
    (h t : Handler J) {result : Except (Fault (Exc J)) Bool}
    {members : List (String × J.Json)}
    (hserved : (server J).handler.handleSignaling h ⟨some id,(env,signaling')⟩ =
      (t,[],.response (some id) (result,members))) :
    answer env signaling { h with response := [] } =
      (result,{ t with response := ("transactionId",J.ofText id)::members }) := by
  have hplain : answer env signaling' { h with response := [] } =
      reply env action request' { h with response := [] } :=
    answer_eq_reply (hreads'.readRequest h)
  have hid : answer env signaling { h with response := [] } =
      reply env action request { h with response := [("transactionId",J.ofText id)] } :=
    answer_eq_reply (hreads.readRequest h)
  have hfront := fronted_reply env action request'
    [("transactionId",J.ofText id)] { h with response := [] }
  have hsame : reply env action request = reply env action request' := by
    rw [reply,reply,hbody.act env action]
  rw [hid,hsame]
  refine hfront.trans ?_
  rw [← hplain]
  cases hserved
  rfl

end Handler
end Ylrtc.Signaling
