import Ylrtc.Signaling.HandlerAborts

/-!
# What a failed request leaves behind

A publish or subscribe request registers its stream in the room before it answers, and
nothing takes the stream back where that fails.
-/
namespace Ylrtc.Signaling
open CursorParser Prog

variable {J : JsonLibrary}

namespace Handler

/-- The rooms are the same, and nothing was asked of their streams. -/
def Same (h t : Handler J) : Prop := t.idRoomMap = h.idRoomMap ∧ t.calls = h.calls

theorem same_refl (h : Handler J) : Same h h := ⟨rfl,rfl⟩

theorem same_trans (h t u : Handler J) (ht : Same h t) (hu : Same t u) : Same h u :=
  ⟨hu.1.trans ht.1,hu.2.trans ht.2⟩

/-- What is the same on the way there and back does not matter. -/
theorem same_iff {h t u v : Handler J} (ht : Same h t) (hv : Same u v) :
    Same h v ↔ Same t u := by
  rw [Same,Same,ht.1,ht.2,hv.1,hv.2]

section Within
variable {ε α : Type}

theorem within_lib {x : Except J.Error α} : Within Same (lib x : Prog (Handler J) (Exc J) α) :=
  within_ofExcept same_refl _

theorem within_respond (key : String) (value : J.Json) :
    Within Same (respond key value : Prog (Handler J) ε Unit) :=
  within_modify fun _ => ⟨rfl,rfl⟩

theorem within_onStream (id : Id) (m : Prog (StreamData J) ε α) : Within Same (onStream id m) :=
  within_zoom (fun _ _ => ⟨rfl,rfl⟩) m

theorem within_readRequest (signaling : Text) :
    Within Same (readRequest signaling : Prog (Handler J) (Exc J) (Text × J.Json)) := by
  refine within_lib.bind same_trans fun request => within_lib.bind same_trans fun action => ?_
  dsimp only
  split
  · exact within_lib.bind same_trans fun id => (within_respond _ _).bind same_trans fun _ =>
      within_pure same_refl _
  · exact within_pure same_refl _

theorem within_complete (failed : YlError) (id : Id)
    (createAnswer : Prog (SdpNegotiator J) (Fault (Exc J)) (Option Text))
    (setLocalDescription : Prog (StreamData J) (Fault (Exc J)) Unit) :
    Within Same (complete failed id createAnswer setLocalDescription) := by
  refine (within_respond _ _).bind same_trans fun _ =>
    (within_onStream _ _).bind same_trans fun answer => ?_
  cases answer with
  | none => exact within_pure same_refl _
  | some answer =>
      exact (within_respond _ _).bind same_trans fun _ =>
        (within_onStream _ _).bind same_trans fun _ => within_pure same_refl _

theorem within_muteOrUnmute (request : J.Json) :
    Within Same (muteOrUnmute request) := by
  refine (within_lib.mapError _).bind same_trans fun streamId =>
    (within_lib.mapError _).bind same_trans fun muted =>
    (within_lib.mapError _).bind same_trans fun type =>
    (within_get same_refl).bind same_trans fun h => ?_
  split
  · split
    · exact (within_onStream _ _).bind same_trans fun _ => within_pure same_refl _
    · exact within_pure same_refl _
  · exact within_pure same_refl _

theorem within_changeSimulcastLayer (request : J.Json) :
    Within Same (changeSimulcastLayer request) := by
  refine within_lib.bind same_trans fun streamId => within_lib.bind same_trans fun layer =>
    (within_get same_refl).bind same_trans fun h => ?_
  split
  · split
    · refine Within.bind same_trans (within_ofExcept same_refl _) fun rid => ?_
      exact Within.bind same_trans (within_modify fun _ => ⟨rfl,rfl⟩) fun _ =>
        within_pure same_refl _
    · exact within_pure same_refl _
  · exact within_pure same_refl _

end Within

/-! ### The actions -/

/-- The request fails: neither does it succeed nor does the process end. -/
def Failed (r : Except (Fault (Exc J)) YlError) : Prop := r ≠ .ok .kOk ∧ r ≠ .error .aborted

theorem within_isolated {τ ε α : Type} (n : τ) (m : Prog τ ε α) :
    Within Same (isolated n m : Prog (Handler J) ε (α × τ)) := by
  intro h
  rw [isolated]
  rcases m n with ⟨e | a,t⟩
  · exact same_refl h
  · exact same_refl h

/-- A stream is registered, or the rooms are left as they were. -/
theorem participantPublish_registers (env : Environment) (roomId : Id) (room : Room)
    (participantId : Id) (offer : Text) :
    WithinUnless Same (fun id => id.isSome = true)
      (participantPublish env roomId room participantId offer :
        Prog (Handler J) (Exc J) (Option Id)) := by
  rw [participantPublish]
  cases room.participantPublish participantId env.streamId with
  | none => exact (within_pure same_refl _).unless _
  | some room =>
      refine (within_isolated _ _).bind_unless same_trans fun accepted => ?_
      dsimp only
      split
      · exact withinUnless_of_good fun h => ⟨some env.streamId,_,rfl,rfl⟩
      · exact (within_pure same_refl _).unless _

theorem participantSubscribe_registers (env : Environment) (roomId : Id) (room : Room)
    (srcParticipantId dstParticipantId publish : Id) (offer : Text) :
    WithinUnless Same (fun id => id.isSome = true)
      (participantSubscribe env roomId room srcParticipantId dstParticipantId publish offer :
        Prog (Handler J) (Exc J) (Option Id)) := by
  rw [participantSubscribe]
  cases room.participantSubscribe srcParticipantId dstParticipantId publish env.streamId with
  | none => exact (within_pure same_refl _).unless _
  | some r =>
      refine (within_get same_refl).bind_unless same_trans fun h =>
        (within_isolated _ _).bind_unless same_trans fun accepted => ?_
      dsimp only
      split
      · exact withinUnless_of_good fun h => ⟨some env.streamId,_,rfl,rfl⟩
      · exact (within_pure same_refl _).unless _

theorem publishStream_registers (env : Environment) (request : J.Json) :
    WithinUnless Same (fun r => r.isRight = true) (publishStream env request) := by
  refine (within_get same_refl).bind_unless same_trans fun h => ?_
  split
  · refine within_lib.bind_unless same_trans fun offer => ?_
    refine (participantPublish_registers env _ _ _ offer).bind same_trans ?_ ?_
    · rintro (_ | id) t hid
      · exact absurd hid (by simp)
      · exact ⟨.inr id,t,rfl,rfl⟩
    · rintro (_ | id)
      · exact (within_pure same_refl _).unless _
      · exact (within_pure same_refl _).unless _
  · exact (within_pure same_refl _).unless _

theorem subscribeStream_registers (env : Environment) (request : J.Json) :
    WithinUnless Same (fun r => r.isRight = true) (subscribeStream env request) := by
  refine within_lib.bind_unless same_trans fun streamId =>
    within_lib.bind_unless same_trans fun offer =>
    within_lib.bind_unless same_trans fun participantId =>
    (within_get same_refl).bind_unless same_trans fun h => ?_
  split
  · refine (participantSubscribe_registers env _ _ _ participantId streamId offer).bind
      same_trans ?_ ?_
    · rintro (_ | id) t hid
      · exact absurd hid (by simp)
      · exact ⟨.inr id,t,rfl,rfl⟩
    · rintro (_ | id)
      · exact (within_pure same_refl _).unless _
      · exact (within_pure same_refl _).unless _
  · exact (within_pure same_refl _).unless _

/-- A join leaves the rooms as they were where it does not succeed. -/
theorem join_within (env : Environment) (request : J.Json) :
    WithinUnless Same (fun r => r = .kOk) (join env request) := by
  refine within_lib.bind_unless same_trans fun roomId =>
    within_lib.bind_unless same_trans fun participantId =>
    (within_get same_refl).bind_unless same_trans fun h => ?_
  split
  · exact withinUnless_of_good fun t => ⟨.kOk,_,rfl,rfl⟩
  · exact (within_pure same_refl _).unless _

/-! ### A stream that stays -/

/-- A stream is registered and then left without its answer or its local description. -/
def FailsToComplete (register : Prog (Handler J) (Exc J) (YlError ⊕ Id))
    (complete : Id → Prog (Handler J) (Fault (Exc J)) YlError) (h : Handler J) : Prop :=
  ∃ id h', register h = (.ok (.inr id),h') ∧ ¬ Same h h' ∧ Failed (complete id h').1

/-- A request that fails leaves a trace exactly if its stream is registered. -/
theorem failed_registers {register : Prog (Handler J) (Exc J) (YlError ⊕ Id)}
    {complete : Id → Prog (Handler J) (Fault (Exc J)) YlError}
    {request : Prog (Handler J) (Fault (Exc J)) YlError} {h : Handler J}
    (hregister : WithinUnless Same (fun r => r.isRight = true) register)
    (hcomplete : ∀ id, Within Same (complete id))
    (hrequest : request = safe register >>= fun r =>
      match r with
      | .inr id => complete id
      | .inl error => pure error) :
    Failed (request h).1 ∧ ¬ Same h (request h).2 ↔ FailsToComplete register complete h := by
  subst hrequest
  rcases hr : register h with ⟨e | (error | id),h'⟩
  · have hthrown : safe register h = (.error (.thrown e),h') := by
      rw [safe,mapError,hr]
    have hsame : Same h h' := by
      rcases hregister h with ⟨_,_,hok,_⟩ | hs
      · rw [hr] at hok
        exact absurd (congrArg Prod.fst hok) (by simp)
      · rw [hr] at hs
        exact hs
    rw [bind_error hthrown]
    simp [FailsToComplete,hr,hsame]
  · have hsame : Same h h' := by
      rcases hregister h with ⟨_,_,hok,hright⟩ | hs
      · rw [hr] at hok
        obtain rfl := Except.ok.inj (congrArg Prod.fst hok)
        exact absurd hright (by simp)
      · rw [hr] at hs
        exact hs
    rw [bind_ok (safe_eq_ok.mpr hr)]
    change _ ∧ ¬ Same h h' ↔ _
    simp [FailsToComplete,hr,hsame]
  · rw [bind_ok (safe_eq_ok.mpr hr)]
    have hwithin := hcomplete id h'
    have hsame := same_iff (same_refl h) hwithin
    constructor
    · rintro ⟨hfailed,hs⟩
      exact ⟨id,h',hr,fun hs' => hs (hsame.mpr hs'),hfailed⟩
    · rintro ⟨_,_,hok,hs,hfailed⟩
      rw [hr] at hok
      obtain ⟨hid,rfl⟩ := Prod.mk.inj hok
      obtain rfl := Sum.inr.inj (Except.ok.inj hid)
      exact ⟨hfailed,fun hs' => hs (hsame.mp hs')⟩

/-! ### What is registered and not answered -/

/-- A stream gets no answer, or no local description by it. -/
def Unanswered (createAnswer : Prog (SdpNegotiator J) (Fault (Exc J)) (Option Text))
    (setLocalDescription : Prog (StreamData J) (Fault (Exc J)) Unit) (d : StreamData J) : Prop :=
  (∃ e n, createAnswer d.sdp = (.error (.thrown e),n)) ∨
    (∃ n, createAnswer d.sdp = (.ok none,n)) ∨
    ∃ answer n e t, createAnswer d.sdp = (.ok (some answer),n) ∧
      setLocalDescription { d with sdp := n } = (.error (.thrown e),t)

/-- The participant does not publish under the id that is drawn. -/
def NewStream (env : Environment) (h : Handler J) : Prop :=
  ∀ room, h.idRoomMap h.sessionInfo.roomId = some room →
    env.streamId ∉ room.participantPublishsMap.valuesOf h.sessionInfo.participantId

/-- A publication is accepted, and its new stream gets no answer or no local description. -/
def PublicationUnanswered (env : Environment) (request : J.Json) (h : Handler J) : Prop :=
  NewStream env h ∧ ∃ sdp, PublicationAccepted env request h sdp ∧
    Unanswered (SdpNegotiator.createPublishAnswer env.enableDtx)
      (publishSetLocalDescription env.memory) { sdp := sdp }

/-- A subscription is accepted, and its stream gets no answer or no local description. -/
def SubscriptionUnanswered (env : Environment) (request : J.Json) (h : Handler J) : Prop :=
  ∃ sdp, SubscriptionAccepted env request h sdp ∧
    Unanswered SdpNegotiator.createSubscribeAnswer
      (safe (subscribeSetLocalDescription env.memory)) { sdp := sdp }

section Complete
variable {failed : YlError} {id : Id}
  {createAnswer : Prog (SdpNegotiator J) (Fault (Exc J)) (Option Text)}
  {setLocalDescription : Prog (StreamData J) (Fault (Exc J)) Unit} {h : Handler J}

/-- A description fails where the stream throws. -/
theorem failed_described {value : J.Json} : Failed ((do
      respond "answer" value
      onStream id setLocalDescription
      pure YlError.kOk : Prog (Handler J) (Fault (Exc J)) YlError) h).1 ↔
    ∃ e d, setLocalDescription (h.streams id) = (.error (.thrown e),d) := by
  let answered : Handler J := { h with response := h.response++[("answer",value)] }
  have hrun (r : Except (Fault (Exc J)) Unit) (d : StreamData J)
      (hr : setLocalDescription (h.streams id) = (r,d)) :
      onStream id setLocalDescription answered =
        (r,{ answered with streams := Function.update h.streams id d }) := onStream_eq hr
  change Failed ((onStream id setLocalDescription >>= fun _ => pure YlError.kOk) answered).1 ↔ _
  rcases hs : setLocalDescription (h.streams id) with ⟨(e | _) | _,d⟩
  · rw [bind_error (hrun _ d hs)]
    simp [Failed]
  · rw [bind_error (hrun _ d hs)]
    simp [Failed]
  · rw [bind_ok (hrun _ d hs)]
    change Failed (Except.ok YlError.kOk) ↔ _
    simp [Failed]

theorem failed_complete (hfailed : failed ≠ .kOk) :
    Failed (complete failed id createAnswer setLocalDescription h).1 ↔
      Unanswered createAnswer setLocalDescription (h.streams id) := by
  let begun : Handler J := { h with response := h.response++[("streamId",J.ofText id)] }
  have hsdp (r : Except (Fault (Exc J)) (Option Text)) (n : SdpNegotiator J)
      (hr : createAnswer (h.streams id).sdp = (r,n)) :
      onStream id (onSdp createAnswer) begun = (r,{ begun with
        streams := Function.update h.streams id { h.streams id with sdp := n } }) :=
    onSdp_eq hr
  rw [complete,Unanswered]
  change Failed ((onStream id (onSdp createAnswer) >>= _) begun).1 ↔ _
  rcases hc : createAnswer (h.streams id).sdp with ⟨(e | _) | (_ | answer),n⟩
  · rw [bind_error (hsdp _ n hc)]
    simp [Failed]
  · rw [bind_error (hsdp _ n hc)]
    simp [Failed]
  · rw [bind_ok (hsdp _ n hc)]
    change Failed (Except.ok failed) ↔ _
    simp [Failed,hfailed]
  · rw [bind_ok (hsdp _ n hc)]
    simp [failed_described]

end Complete

/-- The room is the same after a publication only if the stream was published already. -/
theorem publishStream_same {env : Environment} {request : J.Json} {id : Id} {h t : Handler J}
    (hp : publishStream env request h = (.ok (.inr id),t)) : Same h t ↔ ¬ NewStream env h := by
  obtain ⟨room,offer,hroom,-,hp⟩ := publishStream_eq_ok.mp hp
  obtain ⟨-,accepted,-,-,-,rfl⟩ := participantPublish_eq_ok.mp hp
  rw [register_eq,Same]
  simp only [List.append_nil,and_true,Function.update_eq_self_iff,hroom,Option.some.injEq,
    NewStream,SetMap.mem_valuesOf,forall_eq',not_not]
  rw [← SetMap.insert_eq_self_iff]
  constructor
  · exact fun heq => congrArg Room.participantPublishsMap heq
  · intro heq
    rw [heq]

/-- A subscription registers an observer. -/
theorem subscribeStream_not_same {env : Environment} {request : J.Json} {id : Id}
    {h t : Handler J} (hs : subscribeStream env request h = (.ok (.inr id),t)) :
    ¬ Same h t := by
  obtain ⟨_,-,_,-,_,-,room,-,hs⟩ := subscribeStream_eq_ok.mp hs
  obtain ⟨room',calls,accepted,hsub,-,-,-,rfl⟩ := participantSubscribe_eq_ok.mp hs
  rw [Room.participantSubscribe] at hsub
  split at hsub
  · obtain ⟨rfl,rfl⟩ := Prod.mk.inj (Option.some.inj hsub)
    rw [register_eq,Same]
    simp
  · exact absurd hsub (by simp)

theorem failsToComplete_publish {env : Environment} {request : J.Json} {h : Handler J} :
    FailsToComplete (publishStream env request) (completePublish env) h ↔
      PublicationUnanswered env request h := by
  rw [FailsToComplete,PublicationUnanswered,← publishStream_registers_iff]
  simp only [completePublish,failed_complete (show YlError.kPublishFailed ≠ .kOk by decide)]
  constructor
  · rintro ⟨id,t,hp,hsame,hfailed⟩
    rw [publishStream_same hp,not_not] at hsame
    exact ⟨hsame,id,t,hp,hfailed⟩
  · rintro ⟨hnew,id,t,hp,hfailed⟩
    refine ⟨id,t,hp,?_,hfailed⟩
    rw [publishStream_same hp,not_not]
    exact hnew

theorem failsToComplete_subscribe {env : Environment} {request : J.Json} {h : Handler J} :
    FailsToComplete (subscribeStream env request) (completeSubscribe env) h ↔
      SubscriptionUnanswered env request h := by
  rw [FailsToComplete,SubscriptionUnanswered,← subscribeStream_registers_iff]
  simp only [completeSubscribe,
    failed_complete (show YlError.kSubscriptionFailed ≠ .kOk by decide)]
  constructor
  · rintro ⟨id,t,hs,-,hfailed⟩
    exact ⟨id,t,hs,hfailed⟩
  · rintro ⟨id,t,hs,hfailed⟩
    exact ⟨id,t,hs,subscribeStream_not_same hs,hfailed⟩

theorem failed_subscribe {env : Environment} {request : J.Json} {h : Handler J} :
    Failed (subscribe env request h).1 ∧ ¬ Same h (subscribe env request h).2 ↔
      SubscriptionUnanswered env request h :=
  (failed_registers (subscribeStream_registers env request)
    (fun id => within_complete _ id _ _) rfl).trans failsToComplete_subscribe

theorem failed_publish {env : Environment} {request : J.Json} {h : Handler J} :
    Failed (publish env request h).1 ∧ ¬ Same h (publish env request h).2 ↔
      PublicationUnanswered env request h :=
  (failed_registers (publishStream_registers env request)
    (fun id => within_complete _ id _ _) rfl).trans failsToComplete_publish

/-- Of the actions, only a publication and a subscription can fail and leave a trace. -/
theorem failed_act {env : Environment} {action : Text} {request : J.Json} {h : Handler J} :
    Failed (act env action request h).1 ∧ ¬ Same h (act env action request h).2 ↔
      action = text "subscribe" ∧ SubscriptionUnanswered env request h ∨
      action = text "publish" ∧ PublicationUnanswered env request h := by
  constructor
  · rintro ⟨hfailed,hsame⟩
    rw [act] at hfailed hsame
    split at hfailed
    · rename_i haction
      rw [if_pos haction] at hsame
      exact .inl ⟨haction,failed_subscribe.mp ⟨hfailed,hsame⟩⟩
    rename_i hsubscribe
    rw [if_neg hsubscribe] at hsame
    split at hfailed
    · rename_i haction
      rw [if_pos haction] at hsame
      exact .inr ⟨haction,failed_publish.mp ⟨hfailed,hsame⟩⟩
    rename_i hpublish
    rw [if_neg hpublish] at hsame
    refine absurd ?_ hsame
    split at hfailed
    · rename_i haction
      rw [if_pos haction]
      rcases join_within env request h with ⟨a,t,hok,rfl⟩ | hs
      · rw [safe_eq_ok.mpr hok] at hfailed
        exact absurd rfl hfailed.1
      · rw [safe,mapError_state]
        exact hs
    rename_i hjoin
    rw [if_neg hjoin]
    split
    · exact within_muteOrUnmute request h
    split
    · exact ⟨rfl,rfl⟩
    split
    · exact (within_changeSimulcastLayer request).mapError _ h
    · exact same_refl h
  · rintro (⟨rfl,hfails⟩ | ⟨rfl,hfails⟩)
    · rw [act,if_pos rfl]
      exact failed_subscribe.mpr hfails
    · rw [act,if_neg (by decide),if_pos rfl]
      exact failed_publish.mpr hfails

section Answer
variable {env : Environment} {signaling : Text} {action : Text} {request : J.Json}
  {h t u : Handler J}

theorem answer_not_read {e : Exc J} (hr : readRequest signaling h = (.error e,t)) :
    ∃ v, answer env signaling h = (.ok true,v) ∧ Same t v := by
  have hthrown : safe (readRequest signaling) h = (.error (.thrown e),t) := by
    rw [safe,mapError,hr]
  rw [answer,catchThrown,bind_error hthrown]
  exact ⟨_,rfl,rfl,rfl⟩

theorem answer_thrown {e : Exc J} (hr : readRequest signaling h = (.ok (action,request),t))
    (ha : act env action request t = (.error (.thrown e),u)) :
    ∃ v, answer env signaling h = (.ok true,v) ∧ Same u v := by
  rw [answer,catchThrown,bind_ok (safe_eq_ok.mpr hr)]
  dsimp only
  rw [bind_error ha]
  exact ⟨_,rfl,rfl,rfl⟩

theorem answer_aborted (hr : readRequest signaling h = (.ok (action,request),t))
    (ha : act env action request t = (.error .aborted,u)) :
    answer env signaling h = (.error .aborted,u) := by
  rw [answer,catchThrown,bind_ok (safe_eq_ok.mpr hr)]
  dsimp only
  rw [bind_error ha]

theorem answer_returned {result : YlError}
    (hr : readRequest signaling h = (.ok (action,request),t))
    (ha : act env action request t = (.ok result,u)) :
    ∃ v, answer env signaling h = (.ok (result != .kOk),v) ∧ Same u v := by
  rw [answer,catchThrown,bind_ok (safe_eq_ok.mpr hr)]
  dsimp only
  rw [bind_ok ha]
  exact ⟨_,rfl,rfl,rfl⟩

end Answer

/-- An error is told, and the state is not as before: the request was read, and its action
failed and left a trace. -/
theorem answer_error_iff {env : Environment} {signaling : Text} {h : Handler J} :
    (∃ v, answer env signaling h = (.ok true,v) ∧ ¬ Same h v) ↔
      ∃ action request t, readRequest signaling h = (.ok (action,request),t) ∧
        Failed (act env action request t).1 ∧ ¬ Same t (act env action request t).2 := by
  have hread := within_readRequest signaling h
  rcases hr : readRequest signaling h with ⟨e | ⟨action,request⟩,t⟩
  · rw [hr] at hread
    have hanswer : ∃ v, answer env signaling h = (.ok true,v) ∧ Same t v := answer_not_read hr
    obtain ⟨v,hv,hsame⟩ := hanswer
    simp [hv,same_trans _ _ _ hread hsame]
  · rw [hr] at hread
    simp only [Prod.mk.injEq,Except.ok.injEq]
    trans Failed (act env action request t).1 ∧ ¬ Same t (act env action request t).2
    · rcases ha : act env action request t with ⟨(e | _) | result,u⟩
      · obtain ⟨v,hv,hsame⟩ := answer_thrown hr ha
        simp [hv,Failed,same_iff hread hsame]
      · simp [answer_aborted hr ha,Failed]
      · obtain ⟨v,hv,hsame⟩ := answer_returned hr ha
        simp [hv,Failed,same_iff hread hsame]
    · constructor
      · exact fun hs => ⟨action,request,t,⟨⟨rfl,rfl⟩,rfl⟩,hs⟩
      · rintro ⟨_,_,_,⟨⟨rfl,rfl⟩,rfl⟩,hs⟩
        exact hs

/-- No stream that a request registers is left without its answer or its local
description. -/
def Completes (env : Environment) (signaling : Text) (h : Handler J) : Prop :=
  ∀ action request t, readRequest signaling h = (.ok (action,request),t) →
    (action = text "subscribe" → ¬ SubscriptionUnanswered env request t) ∧
    (action = text "publish" → ¬ PublicationUnanswered env request t)

theorem answer_error_same_iff {env : Environment} {signaling : Text} {h : Handler J} :
    (∀ v, answer env signaling h = (.ok true,v) → Same h v) ↔ Completes env signaling h := by
  constructor
  · intro hsame action request t hr
    have hact : ¬ (Failed (act env action request t).1 ∧
        ¬ Same t (act env action request t).2) := by
      intro hfailed
      obtain ⟨v,hv,hs⟩ := answer_error_iff.mpr ⟨action,request,t,hr,hfailed⟩
      exact hs (hsame v hv)
    rw [failed_act,not_or,not_and,not_and] at hact
    exact hact
  · intro hcompletes v hv
    by_contra hs
    obtain ⟨action,request,t,hr,hfailed⟩ := answer_error_iff.mp ⟨v,hv,hs⟩
    rcases failed_act.mp hfailed with ⟨haction,hfails⟩ | ⟨haction,hfails⟩
    · exact (hcompletes action request t hr).1 haction hfails
    · exact (hcompletes action request t hr).2 haction hfails

/-- A response that tells of an error leaves the rooms as they were, exactly if no registered
stream is left incomplete or there is no response. -/
theorem handleSignaling_error_same_iff (env : Environment) (signaling : Text) (h : Handler J) :
    (∀ response h', handleSignaling env signaling h = (.ok (true,response),h') → Same h h') ↔
      Completes env signaling { h with response := [] } ∨
        ¬ Writable env signaling { h with response := [] } := by
  rw [← answer_error_same_iff]
  simp only [handleSignaling_eq_ok]
  constructor
  · intro hsame
    by_cases hw : Writable env signaling { h with response := [] }
    · refine .inl fun v hv => ?_
      obtain ⟨response,hd⟩ := hw true v hv
      exact hsame response v ⟨hv,hd⟩
    · exact .inr hw
  · rintro (hsame | hw) response h' ⟨hv,hd⟩
    · exact hsame h' hv
    · refine absurd (fun error t ht => ?_) hw
      rw [hv] at ht
      obtain ⟨-,rfl⟩ := Prod.mk.inj ht
      exact ⟨response,hd⟩

/-- The lines of a description. -/
def description (lines : List String) : Text := lines.flatMap fun line => text line++[13,10]

/-- An offer of H264 alone. -/
def offerH264 : Text := description ["v=0","o=- 1 2 IN IP4 0.0.0.0","s=-","t=0 0",
  "a=group:BUNDLE 0","m=video 9 UDP/TLS/RTP/SAVPF 102","c=IN IP4 0.0.0.0","a=mid:0",
  "a=sendonly","a=setup:actpass","a=ice-ufrag:u","a=ice-pwd:p","a=fingerprint:sha-256 F",
  "a=rtpmap:102 H264/90000"]

/-- What the negotiator reads of it. -/
def offerH264Sdp : Value := .object [
  ("groups",.array [.object [("mids",.string (text "0")),("type",.string (text "BUNDLE"))]]),
  ("media",.array [.object [
    ("direction",.string (text "sendonly")),
    ("fingerprint",.object [("hash",.string (text "F")),("type",.string (text "sha-256"))]),
    ("icePwd",.string (text "p")),("iceUfrag",.string (text "u")),("port",.int 9),
    ("rtp",.array [.object [("codec",.string (text "H264")),("payload",.int 102),
      ("rate",.int 90000)]]),
    ("setup",.string (text "actpass")),("type",.string (text "video"))]])]

def publishH264 : Value :=
  .object [("action",.string (text "publish")),("offer",.string offerH264)]

/-- The session of a participant who is alone in the room and publishes nothing. -/
def newcomer : Handler (plainJson [publishH264] [(offerH264,offerH264Sdp)]) where
  idRoomMap := Function.update (fun _ => none) (text "room") (some {
    participantIdSet := {text "ann"} })
  sessionInfo := ⟨text "room",text "ann"⟩

/-- The participants under whom the room has published streams. -/
def publishers (h : Handler J) : Option (List Id) :=
  (h.idRoomMap (text "room")).map fun r => r.participantPublishsMap.entries.map Prod.fst

theorem publishH264_not_same : ¬ ∀ response h', handleSignaling
    { streamId := text "s", order := fun _ => [] } publishH264.written newcomer =
      (.ok (true,response),h') → Same newcomer h' := by
  intro hclaim
  have hrun : (match handleSignaling { streamId := text "s", order := fun _ => [] }
      publishH264.written newcomer with
    | (.ok (true,_),h') => publishers h'
    | _ => none) = some [text "ann"] := by
    decide +kernel
  have hbefore : publishers newcomer = some [] := by
    decide +kernel
  rcases h : handleSignaling { streamId := text "s", order := fun _ => [] }
    publishH264.written newcomer with ⟨e | ⟨_ | _,response⟩,h'⟩
  · rw [h] at hrun
    exact absurd hrun (by simp)
  · rw [h] at hrun
    exact absurd hrun (by simp)
  · rw [h] at hrun
    have hsame := hclaim response h' h
    have hafter : publishers h' = some [] := by
      rw [publishers,hsame.1]
      exact hbefore
    exact absurd (hafter.symm.trans hrun) (by simp)

end Handler
end Ylrtc.Signaling
