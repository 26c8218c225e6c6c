import Ylrtc.Signaling.Responses

/-!
# When a response can be written

`dump` throws at a string that is not UTF-8. What came out of JSON is, so that a response can be
written unless it quotes the text of an exception or has an answer that is not.
-/
namespace Ylrtc.Signaling
open CursorParser Prog

/-- Printable ASCII, of which all literals are made. -/
def Printable (s : Text) : Prop := ∀ c ∈ s, 32 ≤ c.toNat ∧ c.toNat < 127

/-- What the library says of strings that can be written: they may be put together with literals,
and what is parsed consists of them. -/
structure JsonLibrary.WritesTexts (J : JsonLibrary) (valid : Text → Prop)
    (writable : J.Json → Prop) : Prop where
  nil : valid []
  printable_append : ∀ s t, Printable s → (valid (s++t) ↔ valid t)
  append_printable : ∀ s t, Printable s → (valid (t++s) ↔ valid t)
  dump : ∀ v, (∃ response, J.dump v = .ok response) ↔ writable v
  ofText : ∀ t, writable (J.ofText t) ↔ valid t
  ofBool : ∀ b, writable (J.ofBool b)
  array : ∀ vs, (∀ v ∈ vs, writable v) → writable (J.array vs)
  object : ∀ ms, (∀ m ∈ ms, Printable (text m.1)) →
    (writable (J.object ms) ↔ ∀ m ∈ ms, writable m.2)
  parse : ∀ s v, J.parse s = .ok v → writable v
  atKey : ∀ v key w, writable v → J.atKey v key = .ok w → writable w
  toText : ∀ v t, writable v → J.toText v = .ok t → valid t

theorem printable_text {s : String}
    (hs : (s.toList.all fun c => 32 ≤ c.toNat ∧ c.toNat < 127) = true) : Printable (text s) := by
  simp only [Printable,text,List.forall_mem_map]
  intro c hc
  have hrange := of_decide_eq_true (List.all_eq_true.mp hs c hc)
  rw [BitVec.toNat_ofNat]
  omega

variable {J : JsonLibrary} {valid : Text → Prop} {writable : J.Json → Prop}

theorem JsonLibrary.WritesTexts.valid_printable (hJ : J.WritesTexts valid writable) {s : Text}
    (hs : Printable s) : valid s := by
  rw [← List.append_nil s,hJ.printable_append s [] hs]
  exact hJ.nil

theorem JsonLibrary.WritesTexts.textAt (hJ : J.WritesTexts valid writable) {v : J.Json}
    (hv : writable v) {key : String} {t : Text} (ht : textAt v key = .ok t) : valid t := by
  obtain ⟨member,hmember,ht⟩ := except_bind_eq_ok.mp ht
  exact hJ.toText _ t (hJ.atKey v key member hv hmember) ht

/-! ### The library on trees -/

namespace Value

theorem quote_ok_iff {s : Text} : (∃ t, quote s = .ok t) ↔
    ∀ c ∈ s, (32 ≤ c.toNat ∧ c.toNat < 127) ∨ c = 13 ∨ c = 10 := by
  rw [quote]
  split
  · rename_i hall
    exact iff_of_true ⟨_,rfl⟩ fun c hc => of_decide_eq_true (List.all_eq_true.mp hall c hc)
  · rename_i hall
    refine iff_of_false (by simp) fun h => hall ?_
    exact List.all_eq_true.mpr fun c hc => decide_eq_true (h c hc)

theorem dumpElements_ok_iff {vs : List Value} :
    (∃ ts, dumpElements vs = .ok ts) ↔ ∀ v ∈ vs, ∃ t, v.dump = .ok t := by
  induction vs with
  | nil => exact iff_of_true ⟨[],rfl⟩ fun v hv => absurd hv List.not_mem_nil
  | cons v vs ih =>
      rw [List.forall_mem_cons,← ih]
      constructor
      · intro hdump
        obtain ⟨_,h⟩ := hdump
        obtain ⟨t,ht,h⟩ := except_bind_eq_ok.mp h
        obtain ⟨ts,hts,_⟩ := except_bind_eq_ok.mp h
        exact ⟨⟨t,ht⟩,ts,hts⟩
      · intro hdumps
        obtain ⟨⟨t,ht⟩,ts,hts⟩ := hdumps
        exact ⟨t::ts,except_bind_eq_ok.mpr ⟨t,ht,except_bind_eq_ok.mpr ⟨ts,hts,rfl⟩⟩⟩

theorem dumpMembers_ok_iff {ms : List (String × Value)} :
    (∃ ts, dumpMembers ms = .ok ts) ↔
      ∀ m ∈ ms, (∃ t, quote (text m.1) = .ok t) ∧ ∃ t, m.2.dump = .ok t := by
  induction ms with
  | nil => exact iff_of_true ⟨[],rfl⟩ fun m hm => absurd hm List.not_mem_nil
  | cons m ms ih =>
      rw [List.forall_mem_cons,← ih]
      constructor
      · intro hdump
        obtain ⟨_,h⟩ := hdump
        obtain ⟨key,hkey,h⟩ := except_bind_eq_ok.mp h
        obtain ⟨t,ht,h⟩ := except_bind_eq_ok.mp h
        obtain ⟨ts,hts,_⟩ := except_bind_eq_ok.mp h
        exact ⟨⟨⟨key,hkey⟩,t,ht⟩,ts,hts⟩
      · intro hdumps
        obtain ⟨⟨⟨key,hkey⟩,t,ht⟩,ts,hts⟩ := hdumps
        exact ⟨_,except_bind_eq_ok.mpr ⟨key,hkey,except_bind_eq_ok.mpr ⟨t,ht,
          except_bind_eq_ok.mpr ⟨ts,hts,rfl⟩⟩⟩⟩

theorem dump_array_ok_iff {vs : List Value} :
    (∃ t, (array vs).dump = .ok t) ↔ ∀ v ∈ vs, ∃ t, v.dump = .ok t := by
  rw [← dumpElements_ok_iff,dump]
  constructor
  · intro hdump
    obtain ⟨_,h⟩ := hdump
    obtain ⟨ts,hts,_⟩ := except_bind_eq_ok.mp h
    exact ⟨ts,hts⟩
  · intro hdumps
    obtain ⟨ts,hts⟩ := hdumps
    exact ⟨_,except_bind_eq_ok.mpr ⟨ts,hts,rfl⟩⟩

theorem dump_object_ok_iff {ms : List (String × Value)} :
    (∃ t, (object ms).dump = .ok t) ↔
      ∀ m ∈ ms, (∃ t, quote (text m.1) = .ok t) ∧ ∃ t, m.2.dump = .ok t := by
  rw [← dumpMembers_ok_iff,dump]
  constructor
  · intro hdump
    obtain ⟨_,h⟩ := hdump
    obtain ⟨ts,hts,_⟩ := except_bind_eq_ok.mp h
    exact ⟨ts,hts⟩
  · intro hdumps
    obtain ⟨ts,hts⟩ := hdumps
    exact ⟨_,except_bind_eq_ok.mpr ⟨ts,hts,rfl⟩⟩

theorem mem_of_find? {v member : Value} {key : String} (h : v.find? key = some member) :
    ∃ ms, v = .object ms ∧ (key,member) ∈ ms := by
  cases v with
  | object ms =>
      obtain ⟨before,after,hms,_⟩ := List.lookup_eq_some_iff.mp h
      refine ⟨ms,rfl,?_⟩
      rw [hms]
      exact List.mem_append_right before List.mem_cons_self
  | null | bool _ | int _ | string _ | array _ => exact absurd h (by simp [find?])

end Value

/-- The library on trees writes the texts that it can quote. -/
theorem plainJson_writesTexts (requests : List Value) (offers : List (Text × Value)) :
    (plainJson requests offers).WritesTexts (fun t => ∃ u, Value.quote t = .ok u)
      (fun v => ∃ t, v.dump = .ok t) where
  nil := ⟨_,rfl⟩
  printable_append := by
    intro s t hs
    simp only [Value.quote_ok_iff,List.forall_mem_append]
    exact and_iff_right fun c hc => .inl (hs c hc)
  append_printable := by
    intro s t hs
    simp only [Value.quote_ok_iff,List.forall_mem_append]
    exact and_iff_left fun c hc => .inl (hs c hc)
  dump := fun _ => Iff.rfl
  ofText := fun _ => Iff.rfl
  ofBool := fun _ => ⟨_,rfl⟩
  array := fun _ => Value.dump_array_ok_iff.mpr
  object := by
    intro ms hms
    refine Value.dump_object_ok_iff.trans (forall₂_congr fun m hm => and_iff_right ?_)
    exact Value.quote_ok_iff.mpr fun c hc => .inl (hms m hm c hc)
  parse := fun s _ h => ⟨s,plainJson_parse h⟩
  atKey := by
    intro v key w hv hw
    obtain ⟨ms,rfl,hmem⟩ := Value.mem_of_find? (Value.at?_eq_ok.mp hw)
    exact (Value.dump_object_ok_iff.mp hv _ hmem).2
  toText := by
    intro v t hv ht
    obtain rfl := Value.toText_eq_ok.mp ht
    exact hv

namespace Handler

/-- The exception that the handler catches, of the request or of its action. -/
def Reports (env : Environment) (signaling : Text) (h : Handler J) (e : Exc J) : Prop :=
  (∃ t, readRequest signaling h = (.error e,t)) ∨
    ∃ action request t u, readRequest signaling h = (.ok (action,request),t) ∧
      act env action request t = (.error (.thrown e),u)

/-- The answer to an offer that is accepted. -/
def Answers (env : Environment) (action : Text) (request : J.Json) (h : Handler J)
    (answer : Text) : Prop :=
  ∃ sdp n, action = text "publish" ∧ PublicationAccepted env request h sdp ∧
      SdpNegotiator.createPublishAnswer env.enableDtx sdp = (.ok (some answer),n) ∨
    action = text "subscribe" ∧ SubscriptionAccepted env request h sdp ∧
      SdpNegotiator.createSubscribeAnswer sdp = (.ok (some answer),n)

/-- The ids of the participants and of their streams can be written. -/
def ValidRoom (valid : Text → Prop) (room : Room) : Prop :=
  (∀ p ∈ room.participantIdSet, valid p) ∧
    ∀ e ∈ room.participantPublishsMap.entries, valid e.1 ∧ ∀ x ∈ e.2, valid x

def ValidIds (valid : Text → Prop) (h : Handler J) : Prop :=
  ∀ roomId room, h.idRoomMap roomId = some room → ValidRoom valid room

/-- All members that the response has so far can be written. -/
def Clean (writable : J.Json → Prop) (h : Handler J) : Prop := ∀ m ∈ h.response, writable m.2

theorem clean_append {h : Handler J} {ms : List (String × J.Json)} :
    Clean writable { h with response := h.response++ms } ↔
      Clean writable h ∧ ∀ m ∈ ms, writable m.2 := by
  simp only [Clean,List.mem_append,or_imp,forall_and]

theorem clean_unwritten {h t : Handler J} (ht : Unwritten h t) :
    Clean writable t ↔ Clean writable h := by
  rw [Clean,Clean,ht]

section Actions
variable {env : Environment} {request : J.Json} {h : Handler J}

/-- What is written of an answer is its text. -/
theorem clean_described {value : J.Json} {id : Id}
    {setLocalDescription : Prog (StreamData J) (Fault (Exc J)) Unit} :
    Clean writable ((do
      respond "answer" value
      onStream id setLocalDescription
      pure YlError.kOk : Prog (Handler J) (Fault (Exc J)) YlError) h).2 ↔
      Clean writable h ∧ writable value := by
  have hrest : Within Unwritten (onStream id setLocalDescription >>= fun _ =>
      pure YlError.kOk : Prog (Handler J) (Fault (Exc J)) YlError) :=
    (unwritten_onStream id setLocalDescription).bind unwritten_trans fun _ =>
      within_pure unwritten_refl _
  have hsame := hrest { h with response := h.response++[("answer",value)] }
  refine (clean_unwritten hsame).trans ?_
  rw [clean_append,List.forall_mem_singleton]

theorem clean_complete (hJ : J.WritesTexts valid writable) {failed : YlError} {id : Id}
    {createAnswer : Prog (SdpNegotiator J) (Fault (Exc J)) (Option Text)}
    {setLocalDescription : Prog (StreamData J) (Fault (Exc J)) Unit} (hid : valid id) :
    Clean writable (complete failed id createAnswer setLocalDescription h).2 ↔
      Clean writable h ∧ ∀ answer n, createAnswer (h.streams id).sdp = (.ok (some answer),n) →
        valid answer := by
  let begun : Handler J := { h with response := h.response++[("streamId",J.ofText id)] }
  have hbegun (s : Id → StreamData J) :
      Clean writable { begun with streams := s } ↔ Clean writable h := by
    refine clean_append.trans ?_
    simp [hJ.ofText,hid]
  have hsdp (r : Except (Fault (Exc J)) (Option Text)) (n : SdpNegotiator J)
      (hr : createAnswer (h.streams id).sdp = (r,n)) :
      onStream id (onSdp createAnswer) begun = (r,{ begun with
        streams := Function.update h.streams id { h.streams id with sdp := n } }) :=
    onSdp_eq hr
  rw [complete]
  change Clean writable ((onStream id (onSdp createAnswer) >>= _) begun).2 ↔ _
  rcases hc : createAnswer (h.streams id).sdp with ⟨e | (_ | answer),n⟩
  · rw [bind_error (hsdp _ n hc)]
    exact (hbegun _).trans (by simp)
  · rw [bind_ok (hsdp _ n hc)]
    exact (hbegun _).trans (by simp)
  · rw [bind_ok (hsdp _ n hc)]
    refine clean_described.trans (and_congr (hbegun _) ?_)
    simp [hJ.ofText]

/-- Without a stream there is no answer. -/
theorem clean_registered (hJ : J.WritesTexts valid writable) {failed : YlError}
    {register : Prog (Handler J) (Exc J) (YlError ⊕ Id)}
    {createAnswer : Prog (SdpNegotiator J) (Fault (Exc J)) (Option Text)}
    {setLocalDescription : Prog (StreamData J) (Fault (Exc J)) Unit}
    {request : Prog (Handler J) (Fault (Exc J)) YlError}
    (hregister : Within Unwritten register)
    (hid : ∀ id t, register h = (.ok (.inr id),t) → valid id)
    (hrequest : request = safe register >>= fun r =>
      match r with
      | .inr id => complete failed id createAnswer setLocalDescription
      | .inl error => pure error) :
    Clean writable (request h).2 ↔ Clean writable h ∧ ∀ answer,
      (∃ id t, register h = (.ok (.inr id),t) ∧
        ∃ n, createAnswer (t.streams id).sdp = (.ok (some answer),n)) → valid answer := by
  subst hrequest
  have hwithin := hregister h
  rcases hr : register h with ⟨e | (error | id),t⟩
  · have hthrown : safe register h = (.error (.thrown e),t) := by
      rw [safe,mapError,hr]
    rw [hr] at hwithin
    rw [bind_error hthrown]
    exact (clean_unwritten hwithin).trans (by simp)
  · rw [hr] at hwithin
    rw [bind_ok (safe_eq_ok.mpr hr)]
    exact (clean_unwritten hwithin).trans (by simp)
  · rw [hr] at hwithin
    rw [bind_ok (safe_eq_ok.mpr hr)]
    refine (clean_complete hJ (hid id t hr)).trans (and_congr (clean_unwritten hwithin) ?_)
    simp only [Prod.mk.injEq,Except.ok.injEq,Sum.inr.injEq]
    constructor
    · rintro hvalid answer ⟨_,_,⟨rfl,rfl⟩,n,hn⟩
      exact hvalid answer n hn
    · exact fun hvalid answer n hn => hvalid answer ⟨id,t,⟨rfl,rfl⟩,n,hn⟩

theorem clean_publish (hJ : J.WritesTexts valid writable) (hid : valid env.streamId) :
    Clean writable (publish env request h).2 ↔ Clean writable h ∧ ∀ answer,
      (∃ sdp, PublicationAccepted env request h sdp ∧
        ∃ n, SdpNegotiator.createPublishAnswer env.enableDtx sdp = (.ok (some answer),n)) →
      valid answer := by
  have hnew (id : Id) (t : Handler J) (hp : publishStream env request h = (.ok (.inr id),t)) :
      valid id := by
    obtain ⟨_,_,_,_,hp⟩ := publishStream_eq_ok.mp hp
    obtain ⟨_,_,_,_,rfl,_⟩ := participantPublish_eq_ok.mp hp
    exact hid
  refine (clean_registered hJ (unwritten_publishStream env request) hnew rfl).trans
    (and_congr Iff.rfl (forall_congr' fun answer => imp_congr ?_ Iff.rfl))
  exact publishStream_registers_iff (P := fun d =>
    ∃ n, SdpNegotiator.createPublishAnswer env.enableDtx d.sdp = (.ok (some answer),n))

theorem clean_subscribe (hJ : J.WritesTexts valid writable) (hid : valid env.streamId) :
    Clean writable (subscribe env request h).2 ↔ Clean writable h ∧ ∀ answer,
      (∃ sdp, SubscriptionAccepted env request h sdp ∧
        ∃ n, SdpNegotiator.createSubscribeAnswer sdp = (.ok (some answer),n)) →
      valid answer := by
  have hnew (id : Id) (t : Handler J) (hs : subscribeStream env request h = (.ok (.inr id),t)) :
      valid id := by
    obtain ⟨_,_,_,_,_,_,_,_,hs⟩ := subscribeStream_eq_ok.mp hs
    obtain ⟨_,_,_,_,_,_,rfl,_⟩ := participantSubscribe_eq_ok.mp hs
    exact hid
  refine (clean_registered hJ (unwritten_subscribeStream env request) hnew rfl).trans
    (and_congr Iff.rfl (forall_congr' fun answer => imp_congr ?_ Iff.rfl))
  exact subscribeStream_registers_iff (P := fun d =>
    ∃ n, SdpNegotiator.createSubscribeAnswer d.sdp = (.ok (some answer),n))

theorem ValidRoom.join {room : Room} (hroom : ValidRoom valid room) {p : Id} (hp : valid p) :
    ValidRoom valid (room.join p).1 := by
  rw [Room.join]
  split
  · exact hroom
  · refine ⟨?_,hroom.2⟩
    intro q hq
    rcases Finset.mem_insert.mp hq with rfl | hq
    · exact hp
    · exact hroom.1 q hq

theorem writable_getRoomInfo (hJ : J.WritesTexts valid writable)
    (horder : ∀ s p, p ∈ env.order s → p ∈ s) {room : Room} (hroom : ValidRoom valid room) :
    writable (getRoomInfo env h room) := by
  rw [getRoomInfo,hJ.object]
  swap
  · simp only [List.forall_mem_cons,List.not_mem_nil,false_implies,implies_true,and_true]
    exact ⟨printable_text rfl,printable_text rfl⟩
  intro m hm
  rcases List.mem_cons.mp hm with rfl | hm
  · refine hJ.array _ fun v hv => ?_
    obtain ⟨p,hp,rfl⟩ := List.mem_map.mp hv
    exact (hJ.ofText p).mpr (hroom.1 p (horder _ p hp))
  · obtain rfl := List.mem_singleton.mp hm
    refine hJ.array _ fun v hv => ?_
    obtain ⟨e,he,hv⟩ := List.mem_flatMap.mp hv
    obtain ⟨x,hx,rfl⟩ := List.mem_map.mp hv
    have hvalid := hroom.2 e he
    rw [hJ.object]
    swap
    · simp only [List.forall_mem_cons,List.not_mem_nil,false_implies,implies_true,and_true]
      exact ⟨printable_text rfl,printable_text rfl,printable_text rfl,printable_text rfl⟩
    simp only [List.forall_mem_cons,List.not_mem_nil,false_implies,implies_true,and_true]
    exact ⟨(hJ.ofText _).mpr hvalid.1,(hJ.ofText _).mpr (hvalid.2 x (List.mem_filter.mp hx).1),
      hJ.ofBool _,hJ.ofBool _⟩

/-- A join writes the participants of the room and their streams. -/
theorem clean_join (hJ : J.WritesTexts valid writable)
    (horder : ∀ s p, p ∈ env.order s → p ∈ s) (hids : ValidIds valid h)
    (hrequest : writable request) :
    Clean writable (join env request h).2 ↔ Clean writable h := by
  rw [join]
  cases hroomId : textAt request "roomId" with
  | error e => rw [bind_error (lib_error rfl h)]
  | ok roomId =>
      rw [bind_ok (lib_eq_ok.mpr ⟨rfl,rfl⟩)]
      cases hp : textAt request "participantId" with
      | error e => rw [bind_error (lib_error rfl h)]
      | ok participantId =>
          rw [bind_ok (lib_eq_ok.mpr ⟨rfl,rfl⟩),get_bind]
          cases hroom : h.idRoomMap roomId with
          | none => rfl
          | some room =>
              have hinfo := writable_getRoomInfo (h := h) hJ horder
                ((hids roomId room hroom).join (hJ.textAt hrequest hp))
              refine clean_append.trans ?_
              simp [hinfo,Clean]

/-- Of the actions, only a publication and a subscription write a text that is not from the
request or the rooms. -/
theorem clean_act (hJ : J.WritesTexts valid writable) (hid : valid env.streamId)
    (horder : ∀ s p, p ∈ env.order s → p ∈ s) (hids : ValidIds valid h)
    (hrequest : writable request) (action : Text) :
    Clean writable (act env action request h).2 ↔ Clean writable h ∧
      ∀ answer, Answers env action request h answer → valid answer := by
  have hother (ha : action ≠ text "publish") (hs : action ≠ text "subscribe") (t : Handler J)
      (ht : Clean writable t ↔ Clean writable h) : Clean writable t ↔ Clean writable h ∧
        ∀ answer, Answers env action request h answer → valid answer := by
    refine ht.trans (iff_self_and.mpr fun _ answer hanswer => ?_)
    obtain ⟨_,_,⟨hpublish,_⟩ | ⟨hsubscribe,_⟩⟩ := hanswer
    · exact absurd hpublish ha
    · exact absurd hsubscribe hs
  rw [act]
  split
  · rename_i haction
    refine (clean_subscribe hJ hid).trans (and_congr Iff.rfl (forall_congr' fun answer =>
      imp_congr ?_ Iff.rfl))
    subst haction
    simp [Answers,show text "subscribe" ≠ text "publish" by decide]
  rename_i hsubscribe
  split
  · rename_i haction
    refine (clean_publish hJ hid).trans (and_congr Iff.rfl (forall_congr' fun answer =>
      imp_congr ?_ Iff.rfl))
    subst haction
    simp [Answers,hsubscribe]
  rename_i hpublish
  refine hother hpublish hsubscribe _ ?_
  split
  · rw [safe,Clean,mapError_state]
    exact clean_join hJ horder hids hrequest
  split
  · exact clean_unwritten (unwritten_muteOrUnmute request h)
  split
  · exact Iff.rfl
  split
  · exact clean_unwritten ((unwritten_changeSimulcastLayer request).mapError _ h)
  · exact Iff.rfl

end Actions

/-! ### The response as a whole -/

theorem clean_readRequest (hJ : J.WritesTexts valid writable) (signaling : Text)
    (h : Handler J) :
    Clean writable (readRequest signaling h).2 ↔ Clean writable h := by
  rw [Clean,readRequest_response]
  refine clean_append.trans (and_iff_left ?_)
  intro m hm
  obtain ⟨v,hv,rfl⟩ := Option.map_eq_some_iff.mp (Option.mem_toList.mp hm)
  rw [transactionId] at hv
  split at hv
  · exact absurd hv (by simp)
  rename_i request hparse
  split at hv
  · exact absurd hv (by simp)
  split at hv
  · cases hat : J.atKey request "transactionId" with
    | error e =>
        rw [hat] at hv
        exact absurd hv (by simp [Except.toOption])
    | ok id =>
        rw [hat] at hv
        obtain rfl := Option.some.inj hv
        exact hJ.atKey _ _ _ (hJ.parse signaling request hparse) hat
  · exact absurd hv (by simp)

/-- A request that is read was parsed. -/
theorem readRequest_writable (hJ : J.WritesTexts valid writable) {signaling action : Text}
    {request : J.Json} {h t : Handler J}
    (hr : readRequest signaling h = (.ok (action,request),t)) : writable request := by
  rw [readRequest] at hr
  simp only [lib_bind_eq_ok] at hr
  obtain ⟨parsed,hparse,_,_,hr⟩ := hr
  have hrequest : parsed = request := by
    split at hr
    · rw [lib_bind_eq_ok] at hr
      obtain ⟨id,_,hr⟩ := hr
      exact (Prod.mk.inj (pure_eq_ok.mp hr).1).2
    · exact (Prod.mk.inj (pure_eq_ok.mp hr).1).2
  exact hrequest ▸ hJ.parse signaling parsed hparse

theorem clean_detail (hJ : J.WritesTexts valid writable) {h : Handler J} {error : Bool}
    {detail : Text} : Clean writable { h with
      response := h.response++[("error",J.ofBool error)]++[("detail",J.ofText detail)] } ↔
        Clean writable h ∧ valid detail := by
  refine (clean_append (h := { h with response := _ })).trans
    (and_congr (clean_append.trans (and_iff_left ?_)) ?_)
  · simp [hJ.ofBool]
  · simp [hJ.ofText]

theorem valid_reason (hJ : J.WritesTexts valid writable) (what : Text) :
    valid (text "Bad request. Reason: "++what++text ".") ↔ valid what := by
  rw [hJ.append_printable _ _ (printable_text rfl),hJ.printable_append _ _ (printable_text rfl)]

theorem valid_ylErrorToString (hJ : J.WritesTexts valid writable) (error : YlError) :
    valid (ylErrorToString error) := by
  cases error
  all_goals exact hJ.valid_printable (printable_text rfl)

/-- What a response says can be written exactly if the exception that it reports and the answer
that it gives are valid. -/
theorem clean_answer (hJ : J.WritesTexts valid writable) {env : Environment} {signaling : Text}
    {h v : Handler J} {error : Bool} (hid : valid env.streamId)
    (horder : ∀ s p, p ∈ env.order s → p ∈ s) (hids : ValidIds valid h)
    (ha : answer env signaling h = (.ok error,v)) :
    Clean writable v ↔ Clean writable h ∧ (∀ e, Reports env signaling h e → valid e.what) ∧
      ∀ action request t, readRequest signaling h = (.ok (action,request),t) →
        ∀ answer, Answers env action request t answer → valid answer := by
  have hread := clean_readRequest hJ signaling h
  have hsame := within_readRequest signaling h
  rw [answer,catchThrown] at ha
  rcases hr : readRequest signaling h with ⟨e | ⟨action,request⟩,t⟩
  · have hthrown : safe (readRequest signaling) h = (.error (.thrown e),t) := by
      rw [safe,mapError,hr]
    rw [hr] at hread
    rw [bind_error hthrown] at ha
    cases ha
    refine (clean_detail hJ).trans (and_congr hread ((valid_reason hJ _).trans ?_))
    simp [Reports,hr]
  · rw [hr] at hread hsame
    rw [bind_ok (safe_eq_ok.mpr hr)] at ha
    dsimp only at ha
    have hact := clean_act hJ hid horder (h := t)
      (fun roomId room hroom => hids roomId room (hsame.1 ▸ hroom)) (readRequest_writable hJ hr)
      action
    have hanswers : (∀ a r u, ((.ok (action,request),t) : Except (Exc J) _ × Handler J) =
        (.ok (a,r),u) → ∀ answer, Answers env a r u answer → valid answer) ↔
          ∀ answer, Answers env action request t answer → valid answer := by
      constructor
      · exact fun hall => hall action request t rfl
      · rintro hvalid _ _ _ ⟨⟩
        exact hvalid
    rw [hanswers]
    rcases hu : act env action request t with ⟨(e | _) | result,u⟩
    · rw [hu] at hact
      rw [bind_error hu] at ha
      cases ha
      refine (clean_detail hJ).trans ?_
      have hreports : (∀ e, Reports env signaling h e → valid e.what) ↔ valid e.what := by
        simp [Reports,hr,hu]
      rw [valid_reason hJ,hact,hread,hreports,and_assoc,and_comm (a := valid e.what)]
    · rw [bind_error hu] at ha
      cases ha
    · rw [hu] at hact
      rw [bind_ok hu] at ha
      cases ha
      refine (clean_detail hJ).trans ?_
      have hreports (e : Exc J) : ¬ Reports env signaling h e := by
        simp [Reports,hr,hu]
      simp [hact,hread,hreports,valid_ylErrorToString hJ]

theorem printable_keys {env : Environment} {signaling : Text} {h t : Handler J} {error : Bool}
    (ha : answer env signaling { h with response := [] } = (.ok error,t)) :
    ∀ m ∈ t.response, Printable (text m.1) := by
  obtain ⟨keys,hkeys,more,detail,hmore,hresponse⟩ := answer_response ha
  have hliterals : ∀ key ∈ ["transactionId","streamId","answer","roomInfo","error","detail"],
      Printable (text key) := by
    simp only [List.forall_mem_cons,List.not_mem_nil,false_implies,implies_true,and_true]
    exact ⟨printable_text rfl,printable_text rfl,printable_text rfl,printable_text rfl,
      printable_text rfl,printable_text rfl⟩
  intro m hm
  apply hliterals
  rw [hresponse,List.nil_append] at hm
  rcases List.mem_append.mp hm with hm | hm
  · rcases List.mem_append.mp hm with hm | hm
    · obtain ⟨v,_,rfl⟩ := Option.map_eq_some_iff.mp (Option.mem_toList.mp hm)
      exact List.mem_cons_self
    · have hkey := hmore.subset (List.mem_map_of_mem hm)
      rcases List.mem_cons.mp hkeys with rfl | hkeys
      · simp only [List.mem_cons,List.not_mem_nil,or_false] at hkey ⊢
        tauto
      · obtain rfl := List.mem_singleton.mp hkeys
        simp only [List.mem_cons,List.not_mem_nil,or_false] at hkey ⊢
        tauto
  · simp only [List.mem_cons,List.not_mem_nil,or_false] at hm ⊢
    rcases hm with rfl | rfl
    · simp only [true_or,or_true]
    · simp only [or_true]

/-- A response can be written exactly if the exception that it reports and the answer that it
gives are valid. -/
theorem writable_iff (hJ : J.WritesTexts valid writable) {env : Environment} {signaling : Text}
    {h : Handler J} (hid : valid env.streamId) (horder : ∀ s p, p ∈ env.order s → p ∈ s)
    (hids : ValidIds valid h) (hsurvives : Survives env signaling { h with response := [] }) :
    Writable env signaling { h with response := [] } ↔
      (∀ e, Reports env signaling { h with response := [] } e → valid e.what) ∧
      ∀ action request t, readRequest signaling { h with response := [] } =
          (.ok (action,request),t) →
        ∀ answer, Answers env action request t answer → valid answer := by
  have hempty : Clean writable { h with response := [] } := List.forall_mem_nil _
  rcases ha : answer env signaling { h with response := [] } with ⟨(e | _) | error,v⟩
  · exact absurd ha answer_not_thrown
  · exact absurd (congrArg Prod.fst ha) (not_aborts_answer_iff.mpr hsurvives)
  · have hdump : (∃ response, J.dump (J.object v.response) = .ok response) ↔ Clean writable v := by
      rw [hJ.dump,hJ.object _ (printable_keys ha),Clean]
    have hclean := clean_answer hJ hid horder (h := { h with response := [] }) hids ha
    rw [and_iff_right hempty] at hclean
    rw [← hclean,← hdump]
    constructor
    · exact fun hw => hw error v ha
    · intro hv told u hu
      rw [ha] at hu
      obtain ⟨-,rfl⟩ := Prod.mk.inj hu
      exact hv

end Handler
end Ylrtc.Signaling
