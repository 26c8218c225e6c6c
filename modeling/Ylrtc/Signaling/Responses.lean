import Ylrtc.Signaling.HandlerErrors

/-!
# What a response tells

Each response of `SignalingHandler::HandleSignaling` gives back the transaction id of its
request, as far as the request could be read, and tells once whether it failed and why. The
client finds the promise of its request by that id.
-/
namespace Ylrtc.Signaling
open CursorParser Prog

variable {J : JsonLibrary} {ε α β : Type}

namespace Handler

/-- Nothing is written to the response. -/
def Unwritten (h t : Handler J) : Prop := t.response = h.response

/-- What is written to the response has the first ones of these keys. -/
def Writes (keys : List String) (h t : Handler J) : Prop :=
  ∃ more, t.response = h.response++more ∧ more.map Prod.fst <+: keys

theorem unwritten_refl (h : Handler J) : Unwritten h h := rfl

theorem unwritten_trans (h t u : Handler J) (ht : Unwritten h t) (hu : Unwritten t u) :
    Unwritten h u := hu.trans ht

theorem writes_of_unwritten {keys : List String} {h t : Handler J} (ht : Unwritten h t) :
    Writes keys h t := ⟨[],ht.trans (List.append_nil _).symm,List.nil_prefix⟩

theorem Unwritten.writes {keys : List String} {h t u : Handler J} (ht : Unwritten h t)
    (hu : Writes keys t u) : Writes keys h u := by
  obtain ⟨more,heq,hkeys⟩ := hu
  exact ⟨more,heq.trans (congrArg (·++more) ht),hkeys⟩

theorem unwritten_bind {keys : List String} {m : Prog (Handler J) ε α}
    {f : α → Prog (Handler J) ε β} (hm : Within Unwritten m)
    (hf : ∀ a, Within (Writes keys) (f a)) : Within (Writes keys) (m >>= f) := by
  intro h
  have hs := hm h
  rcases hresult : m h with ⟨e | a,t⟩
  · rw [hresult] at hs
    rw [bind_error hresult]
    exact writes_of_unwritten hs
  · rw [hresult] at hs
    rw [bind_ok hresult]
    exact Unwritten.writes hs (hf a t)

theorem respond_bind {keys : List String} {key : String} {value : J.Json}
    {f : Unit → Prog (Handler J) ε β} (hf : ∀ a, Within (Writes keys) (f a)) :
    Within (Writes (key::keys)) (respond key value >>= f) := by
  intro h
  obtain ⟨more,heq,hkeys⟩ := hf () { h with response := h.response++[(key,value)] }
  refine ⟨(key,value)::more,?_,?_⟩
  · show (f () { h with response := h.response++[(key,value)] }).2.response = _
    rw [heq,List.append_assoc,List.singleton_append]
  · rw [List.map_cons]
    exact List.prefix_cons_inj key |>.mpr hkeys

theorem within_writes {keys : List String} {m : Prog (Handler J) ε α} (hm : Within Unwritten m) :
    Within (Writes keys) m := fun h => writes_of_unwritten (hm h)

theorem lib_error {x : Except J.Error α} {e : J.Error} (hx : x = .error e) (h : Handler J) :
    (lib x : Prog (Handler J) (Exc J) α) h = (.error (.json e),h) := by
  rw [hx]
  rfl

theorem unwritten_lib {x : Except J.Error α} :
    Within Unwritten (lib x : Prog (Handler J) (Exc J) α) := within_ofExcept unwritten_refl _

theorem unwritten_onStream (id : Id) (m : Prog (StreamData J) ε α) :
    Within Unwritten (onStream id m) := fun _ => rfl

theorem unwritten_isolated {τ : Type} (n : τ) (m : Prog τ ε α) :
    Within Unwritten (isolated n m : Prog (Handler J) ε (α × τ)) := by
  intro h
  rw [isolated]
  rcases m n with ⟨e | a,t⟩ <;> exact unwritten_refl h

theorem unwritten_participantPublish (env : Environment) (roomId : Id) (room : Room)
    (participantId : Id) (offer : Text) :
    Within Unwritten (participantPublish env roomId room participantId offer :
      Prog (Handler J) (Exc J) (Option Id)) := by
  rw [participantPublish]
  cases room.participantPublish participantId env.streamId with
  | none => exact within_pure unwritten_refl _
  | some room =>
      refine (unwritten_isolated _ _).bind unwritten_trans fun accepted => ?_
      dsimp only
      split
      · exact Within.bind unwritten_trans (within_modify fun _ => rfl)
          fun _ => within_pure unwritten_refl _
      · exact within_pure unwritten_refl _

theorem unwritten_participantSubscribe (env : Environment) (roomId : Id) (room : Room)
    (srcParticipantId dstParticipantId publish : Id) (offer : Text) :
    Within Unwritten (participantSubscribe env roomId room srcParticipantId dstParticipantId
      publish offer : Prog (Handler J) (Exc J) (Option Id)) := by
  rw [participantSubscribe]
  cases room.participantSubscribe srcParticipantId dstParticipantId publish env.streamId with
  | none => exact within_pure unwritten_refl _
  | some r =>
      refine (within_get unwritten_refl).bind unwritten_trans fun h =>
        (unwritten_isolated _ _).bind unwritten_trans fun accepted => ?_
      dsimp only
      split
      · exact Within.bind unwritten_trans (within_modify fun _ => rfl)
          fun _ => within_pure unwritten_refl _
      · exact within_pure unwritten_refl _

theorem unwritten_publishStream (env : Environment) (request : J.Json) :
    Within Unwritten (publishStream env request) := by
  refine (within_get unwritten_refl).bind unwritten_trans fun h => ?_
  split
  · refine unwritten_lib.bind unwritten_trans fun offer =>
      (unwritten_participantPublish env _ _ _ offer).bind unwritten_trans fun id => ?_
    cases id <;> exact within_pure unwritten_refl _
  · exact within_pure unwritten_refl _

theorem unwritten_subscribeStream (env : Environment) (request : J.Json) :
    Within Unwritten (subscribeStream env request) := by
  refine unwritten_lib.bind unwritten_trans fun streamId =>
    unwritten_lib.bind unwritten_trans fun offer =>
    unwritten_lib.bind unwritten_trans fun participantId =>
    (within_get unwritten_refl).bind unwritten_trans fun h => ?_
  split
  · refine (unwritten_participantSubscribe env _ _ _ participantId streamId offer).bind
      unwritten_trans fun id => ?_
    cases id <;> exact within_pure unwritten_refl _
  · exact within_pure unwritten_refl _

/-! ### The actions -/

theorem writes_complete (failed : YlError) (id : Id)
    (createAnswer : Prog (SdpNegotiator J) (Fault (Exc J)) (Option Text))
    (setLocalDescription : Prog (StreamData J) (Fault (Exc J)) Unit) :
    Within (Writes ["streamId","answer"])
      (complete failed id createAnswer setLocalDescription) := by
  refine respond_bind fun _ => unwritten_bind (unwritten_onStream _ _) fun answer => ?_
  cases answer with
  | none => exact within_writes (within_pure unwritten_refl _)
  | some answer =>
      exact respond_bind fun _ => unwritten_bind (unwritten_onStream _ _)
        fun _ => within_writes (within_pure unwritten_refl _)

theorem writes_subscribe (env : Environment) (request : J.Json) :
    Within (Writes ["streamId","answer"]) (subscribe env request) := by
  refine unwritten_bind ((unwritten_subscribeStream env request).mapError _) fun r => ?_
  cases r with
  | inl error => exact within_writes (within_pure unwritten_refl _)
  | inr id => exact writes_complete _ id _ _

theorem writes_publish (env : Environment) (request : J.Json) :
    Within (Writes ["streamId","answer"]) (publish env request) := by
  refine unwritten_bind ((unwritten_publishStream env request).mapError _) fun r => ?_
  cases r with
  | inl error => exact within_writes (within_pure unwritten_refl _)
  | inr id => exact writes_complete _ id _ _

theorem writes_join (env : Environment) (request : J.Json) :
    Within (Writes ["roomInfo"]) (join env request) := by
  refine unwritten_bind unwritten_lib fun roomId => unwritten_bind unwritten_lib fun participantId =>
    unwritten_bind (within_get unwritten_refl) fun h => ?_
  split
  · exact unwritten_bind (within_modify fun _ => rfl) fun _ =>
      respond_bind fun _ => within_writes (within_pure unwritten_refl _)
  · exact within_writes (within_pure unwritten_refl _)

theorem unwritten_muteOrUnmute (request : J.Json) : Within Unwritten (muteOrUnmute request) := by
  refine (unwritten_lib.mapError _).bind unwritten_trans fun streamId =>
    (unwritten_lib.mapError _).bind unwritten_trans fun muted =>
    (unwritten_lib.mapError _).bind unwritten_trans fun type =>
    (within_get unwritten_refl).bind unwritten_trans fun h => ?_
  split
  · split
    · exact (unwritten_onStream _ _).bind unwritten_trans fun _ => within_pure unwritten_refl _
    · exact within_pure unwritten_refl _
  · exact within_pure unwritten_refl _

theorem unwritten_changeSimulcastLayer (request : J.Json) :
    Within Unwritten (changeSimulcastLayer request) := by
  refine unwritten_lib.bind unwritten_trans fun streamId =>
    unwritten_lib.bind unwritten_trans fun layer =>
    (within_get unwritten_refl).bind unwritten_trans fun h => ?_
  split
  · split
    · refine Within.bind unwritten_trans (within_ofExcept unwritten_refl _) fun rid => ?_
      exact Within.bind unwritten_trans (within_modify fun _ => rfl) fun _ =>
        within_pure unwritten_refl _
    · exact within_pure unwritten_refl _
  · exact within_pure unwritten_refl _

/-- The keys that an action may write. -/
def actionKeys : List (List String) := [["streamId","answer"],["roomInfo"]]

theorem writes_act (env : Environment) (action : Text) (request : J.Json) (h : Handler J) :
    ∃ keys ∈ actionKeys, Writes keys h (act env action request h).2 := by
  have hunwritten (t : Handler J) (ht : Unwritten h t) : ∃ keys ∈ actionKeys, Writes keys h t :=
    ⟨_,List.mem_cons_self,writes_of_unwritten ht⟩
  rw [act]
  split
  · exact ⟨_,List.mem_cons_self,writes_subscribe env request h⟩
  split
  · exact ⟨_,List.mem_cons_self,writes_publish env request h⟩
  split
  · refine ⟨["roomInfo"],List.mem_cons_of_mem _ List.mem_cons_self,?_⟩
    exact (writes_join env request).mapError _ h
  split
  · exact hunwritten _ (unwritten_muteOrUnmute request h)
  split
  · exact hunwritten _ rfl
  split
  · exact hunwritten _ ((unwritten_changeSimulcastLayer request).mapError _ h)
  · exact hunwritten _ rfl

/-! ### The response as a whole -/

/-- The transaction id of a request that can be read up to it. -/
def transactionId (J : JsonLibrary) (signaling : Text) : Option J.Json :=
  match J.parse signaling with
  | .error _ => none
  | .ok request =>
      match textAt request "action" with
      | .error _ => none
      | .ok _ =>
          if has request "transactionId" then (J.atKey request "transactionId").toOption else none

theorem readRequest_response (signaling : Text) (h : Handler J) :
    (readRequest signaling h).2.response =
      h.response++((transactionId J signaling).map fun v => ("transactionId",v)).toList := by
  rw [readRequest]
  cases hparse : J.parse signaling with
  | error e =>
      rw [bind_error (lib_error rfl h),transactionId,hparse]
      exact (List.append_nil _).symm
  | ok request =>
      rw [bind_ok (lib_eq_ok.mpr ⟨rfl,rfl⟩),transactionId,hparse]
      dsimp only
      cases haction : textAt request "action" with
      | error e =>
          rw [bind_error (lib_error rfl h)]
          exact (List.append_nil _).symm
      | ok action =>
          rw [bind_ok (lib_eq_ok.mpr ⟨rfl,rfl⟩)]
          dsimp only
          split
          · cases J.atKey request "transactionId" with
            | error e =>
                rw [bind_error (lib_error rfl h)]
                exact (List.append_nil _).symm
            | ok id =>
                rw [bind_ok (lib_eq_ok.mpr ⟨rfl,rfl⟩)]
                rfl
          · exact (List.append_nil _).symm

/-- Whatever the action does, the error and its detail come last. -/
theorem answer_response {env : Environment} {signaling : Text} {h t : Handler J} {error : Bool}
    (ha : answer env signaling h = (.ok error,t)) : ∃ keys ∈ actionKeys, ∃ more detail,
      more.map Prod.fst <+: keys ∧ t.response = h.response++
        ((transactionId J signaling).map fun v => ("transactionId",v)).toList++more++
        [("error",J.ofBool error),("detail",J.ofText detail)] := by
  have hread := readRequest_response signaling h
  rw [answer,catchThrown] at ha
  rcases hr : readRequest signaling h with ⟨e | ⟨action,request⟩,u⟩
  · have hthrown : safe (readRequest signaling) h = (.error (.thrown e),u) := by
      rw [safe,mapError,hr]
    rw [hr] at hread
    rw [bind_error hthrown] at ha
    cases ha
    refine ⟨_,List.mem_cons_self,[],text "Bad request. Reason: "++e.what++text ".",
      List.nil_prefix,?_⟩
    simp only [← hread,List.append_nil,List.append_assoc,List.cons_append,List.nil_append]
  · rw [hr] at hread
    rw [bind_ok (safe_eq_ok.mpr hr)] at ha
    dsimp only at ha
    obtain ⟨keys,hkeys,more,hmore,hbegins⟩ := writes_act env action request u
    rcases hact : act env action request u with ⟨(e | _) | result,v⟩
    · rw [hact] at hmore
      rw [bind_error hact] at ha
      cases ha
      refine ⟨keys,hkeys,more,text "Bad request. Reason: "++e.what++text ".",hbegins,?_⟩
      simp only [← hread,← hmore,List.append_assoc,List.cons_append,List.nil_append]
    · rw [bind_error hact] at ha
      cases ha
    · rw [hact] at hmore
      rw [bind_ok hact] at ha
      cases ha
      refine ⟨keys,hkeys,more,ylErrorToString result,hbegins,?_⟩
      simp only [← hread,← hmore,List.append_assoc,List.cons_append,List.nil_append]

theorem lookup_append_left {key : String} {before after : List (String × J.Json)}
    (h : key ∉ before.map Prod.fst) : (before++after).lookup key = after.lookup key := by
  induction before with
  | nil => rfl
  | cons m ms ih =>
      rw [List.map_cons,List.mem_cons,not_or] at h
      rw [List.cons_append,List.lookup_cons,beq_false_of_ne h.1]
      exact ih h.2

/-- The keys of a response stand once each. -/
theorem nodup_members {keys : List String} (hkeys : keys ∈ actionKeys) (id : Option J.Json)
    {more : List (String × J.Json)} (hmore : more.map Prod.fst <+: keys)
    (error detail : J.Json) : (((id.map fun v => ("transactionId",v)).toList++more++
      [("error",error),("detail",detail)]).map Prod.fst).Nodup := by
  have hid : List.Sublist (((id.map fun v => ("transactionId",v)).toList).map Prod.fst)
      ["transactionId"] := by
    cases id with
    | none => exact List.nil_sublist _
    | some v => exact List.Sublist.refl _
  have hsub := (hid.append hmore.sublist).append (List.Sublist.refl ["error","detail"])
  rw [List.map_append,List.map_append]
  refine List.Nodup.sublist hsub ?_
  rcases List.mem_cons.mp hkeys with rfl | hkeys
  · decide
  · obtain rfl := List.mem_singleton.mp hkeys
    decide

/-- Every response is the text of an object in which each key stands once. It has the
transaction id of the request, if there is one to be read, the error and its detail. -/
theorem response_members (env : Environment) (signaling response : Text) (error : Bool)
    (h t : Handler J) (hreturns : handleSignaling env signaling h = (.ok (error,response),t)) :
    J.dump (J.object t.response) = .ok response ∧ (t.response.map Prod.fst).Nodup ∧
      t.response.lookup "transactionId" = transactionId J signaling ∧
      t.response.lookup "error" = some (J.ofBool error) ∧
      ∃ detail, t.response.lookup "detail" = some (J.ofText detail) := by
  obtain ⟨ha,hdump⟩ := handleSignaling_eq_ok.mp hreturns
  obtain ⟨keys,hkeys,more,detail,hmore,hresponse⟩ := answer_response ha
  rw [List.nil_append] at hresponse
  have hnodup := nodup_members hkeys (transactionId J signaling) hmore (J.ofBool error)
    (J.ofText detail)
  have habsent (key : String) (hkey : key ∉ "transactionId"::keys) :
      key ∉ (((transactionId J signaling).map fun v => ("transactionId",v)).toList++more).map
        Prod.fst := by
    rw [List.mem_cons,not_or] at hkey
    rw [List.map_append,List.mem_append,not_or]
    constructor
    · cases transactionId J signaling with
      | none => exact List.not_mem_nil
      | some v => exact fun hmem => hkey.1 (List.mem_singleton.mp hmem)
    · exact fun hmem => hkey.2 (hmore.sublist.subset hmem)
  have hother : "transactionId" ∉ keys ∧ "error" ∉ "transactionId"::keys ∧
      "detail" ∉ "transactionId"::keys := by
    rcases List.mem_cons.mp hkeys with rfl | hkeys
    · decide
    · obtain rfl := List.mem_singleton.mp hkeys
      decide
  rw [hresponse]
  refine ⟨hresponse ▸ hdump,hnodup,?_,?_,detail,?_⟩
  · cases transactionId J signaling with
    | some v => rfl
    | none =>
        have hmore' : "transactionId" ∉ more.map Prod.fst :=
          fun hmem => hother.1 (hmore.sublist.subset hmem)
        show (more++_).lookup "transactionId" = none
        rw [lookup_append_left hmore']
        rfl
  · rw [lookup_append_left (habsent "error" hother.2.1)]
    rfl
  · rw [lookup_append_left (habsent "detail" hother.2.2)]
    rfl

/-- A request that does nothing else. -/
def keepAlive : Value :=
  .object [("action",.string (text "keepAlive")),("transactionId",.string (text "7"))]

theorem response_members_keepAlive : ∃ response t, handleSignaling
    { streamId := text "s", order := fun _ => [] } keepAlive.written
      ({} : Handler (plainJson [keepAlive] [])) = (.ok (false,response),t) ∧
    t.response.lookup "transactionId" = some (.string (text "7")) := by
  have hok : ((handleSignaling { streamId := text "s", order := fun _ => [] } keepAlive.written
      ({} : Handler (plainJson [keepAlive] []))).1.toOption.map Prod.fst) = some false := by
    decide +kernel
  rcases h : handleSignaling { streamId := text "s", order := fun _ => [] } keepAlive.written
    ({} : Handler (plainJson [keepAlive] [])) with ⟨e | ⟨_ | _,response⟩,t⟩
  · rw [h] at hok
    cases hok
  · exact ⟨response,t,rfl,(response_members _ _ response false _ t h).2.2.1.trans rfl⟩
  · rw [h] at hok
    cases hok

end Handler
end Ylrtc.Signaling
