import Ylrtc.Signaling.SignalingHandler

/-!
# Streams that are registered

A publish or subscribe request registers its stream where the room and its participants are
known, the negotiator accepts the offer and the DTLS transport can be set up.
-/
namespace Ylrtc.Signaling
open CursorParser Prog

variable {J : JsonLibrary}

namespace Handler

/-- The offer of a publication is accepted, and the negotiator of its stream knows both
sides. -/
def PublicationAccepted (env : Environment) (request : J.Json) (h : Handler J)
    (sdp : SdpNegotiator J) : Prop :=
  ∃ room offer accepted, h.idRoomMap h.sessionInfo.roomId = some room ∧
    h.sessionInfo.participantId ∈ room.participantIdSet ∧
    textAt request "offer" = .ok offer ∧
    SdpNegotiator.setPublishOffer offer {} = (.ok true,accepted) ∧ env.dtlsInit = true ∧
    sdp = localSide env h.sessionInfo.roomId accepted

/-- The offer of a subscription to a stream of the room is accepted. The negotiator starts
as a copy of the one of that stream. -/
def SubscriptionAccepted (env : Environment) (request : J.Json) (h : Handler J)
    (sdp : SdpNegotiator J) : Prop :=
  ∃ room streamId offer participantId accepted,
    h.idRoomMap h.sessionInfo.roomId = some room ∧
    textAt request "streamId" = .ok streamId ∧ textAt request "offer" = .ok offer ∧
    textAt request "participantId" = .ok participantId ∧
    h.sessionInfo.participantId ∈ room.participantIdSet ∧
    participantId ∈ room.participantIdSet ∧
    streamId ∈ room.participantPublishsMap.valuesOf participantId ∧
    SdpNegotiator.setSubscribeOffer offer (h.streams streamId).sdp = (.ok true,accepted) ∧
    env.dtlsInit = true ∧ sdp = localSide env h.sessionInfo.roomId accepted

theorem register_eq (env : Environment) (roomId : Id) (room : Room) (calls : List Call)
    (sdp : SdpNegotiator J) (h : Handler J) :
    register env roomId room calls sdp h = (.ok (),{ h with
      idRoomMap := Function.update h.idRoomMap roomId (some room)
      streams := Function.update h.streams env.streamId { sdp := localSide env roomId sdp }
      calls := h.calls++calls }) := rfl

@[simp] theorem register_streams (env : Environment) (roomId : Id) (room : Room)
    (calls : List Call) (sdp : SdpNegotiator J) (h : Handler J) :
    (register env roomId room calls sdp h).2.streams env.streamId =
      { sdp := localSide env roomId sdp } := Function.update_self ..

section Registered
variable {env : Environment} {roomId id : Id} {room : Room} {calls : List Call}
  {h t : Handler J}

/-- What `ParticipantPublish` and `ParticipantSubscribe` share: a stream whose offer is
accepted is registered. -/
theorem registers_iff {accept : Prog (SdpNegotiator J) (Exc J) Bool} {n : SdpNegotiator J} :
    (do
      let (accepted,sdp) ← isolated n accept
      if accepted && env.dtlsInit then
        register env roomId room calls sdp
        pure (some env.streamId)
      else pure none : Prog (Handler J) (Exc J) (Option Id)) h = (.ok (some id),t) ↔
      ∃ accepted, accept n = (.ok true,accepted) ∧ env.dtlsInit = true ∧ id = env.streamId ∧
        t = (register env roomId room calls accepted h).2 := by
  rw [bind_eq_ok]
  constructor
  · rintro ⟨⟨go,accepted⟩,_,hn,hr⟩
    obtain ⟨haccept,rfl⟩ := isolated_eq_ok.mp hn
    dsimp only at hr
    split at hr
    · rename_i hgo
      rw [Bool.and_eq_true] at hgo
      obtain ⟨rfl,hdtls⟩ := hgo
      rw [bind_ok (register_eq ..),pure_eq_ok,Option.some.injEq] at hr
      exact ⟨accepted,haccept,hdtls,hr.1.symm,hr.2.symm⟩
    · exact absurd (pure_eq_ok.mp hr).1 (by simp)
  · rintro ⟨accepted,haccept,hdtls,rfl,rfl⟩
    refine ⟨(true,accepted),h,isolated_eq_ok.mpr ⟨haccept,rfl⟩,?_⟩
    dsimp only
    rw [hdtls,Bool.and_true,if_pos rfl,bind_ok (register_eq ..)]
    rfl

theorem participantPublish_eq_ok {participantId : Id} {offer : Text} :
    participantPublish env roomId room participantId offer h = (.ok (some id),t) ↔
      participantId ∈ room.participantIdSet ∧ ∃ accepted,
        SdpNegotiator.setPublishOffer offer {} = (.ok true,accepted) ∧ env.dtlsInit = true ∧
        id = env.streamId ∧ t = (register env roomId
          { room with participantPublishsMap :=
              room.participantPublishsMap.insert participantId env.streamId } [] accepted h).2 := by
  rw [participantPublish,Room.participantPublish]
  by_cases hp : participantId ∈ room.participantIdSet
  · rw [if_pos hp]
    simp only [hp,true_and]
    exact registers_iff
  · rw [if_neg hp]
    simp [hp,pure_eq_ok]

theorem participantSubscribe_eq_ok {srcParticipantId dstParticipantId publish : Id}
    {offer : Text} :
    participantSubscribe env roomId room srcParticipantId dstParticipantId publish offer h =
        (.ok (some id),t) ↔
      ∃ room' calls accepted, room.participantSubscribe srcParticipantId dstParticipantId
          publish env.streamId = some (room',calls) ∧
        SdpNegotiator.setSubscribeOffer offer (h.streams publish).sdp = (.ok true,accepted) ∧
        env.dtlsInit = true ∧ id = env.streamId ∧
        t = (register env roomId room' calls accepted h).2 := by
  rw [participantSubscribe]
  rcases room.participantSubscribe srcParticipantId dstParticipantId publish env.streamId with
    _ | ⟨room',calls⟩
  · simp [pure_eq_ok]
  · simp only [get_bind,Option.some.injEq,Prod.mk.injEq]
    rw [registers_iff]
    constructor
    · rintro ⟨accepted,h⟩
      exact ⟨room',calls,accepted,⟨rfl,rfl⟩,h⟩
    · rintro ⟨_,_,accepted,⟨rfl,rfl⟩,h⟩
      exact ⟨accepted,h⟩

/-- Where a stream is registered, its id is what the registration gave. -/
theorem inr_eq_ok {m : Prog (Handler J) (Exc J) (Option Id)} {error : YlError} :
    (m >>= fun r => match r with
      | some id => pure (.inr id)
      | none => pure (.inl error) : Prog (Handler J) (Exc J) (YlError ⊕ Id)) h =
        (.ok (.inr id),t) ↔ m h = (.ok (some id),t) := by
  rw [bind_eq_ok]
  constructor
  · rintro ⟨_ | a,u,hm,hr⟩
    · exact absurd (pure_eq_ok.mp hr).1 (by simp)
    · obtain ⟨ha,rfl⟩ := pure_eq_ok.mp hr
      obtain rfl := Sum.inr.inj ha
      exact hm
  · intro hm
    exact ⟨some id,t,hm,rfl⟩

theorem publishStream_eq_ok {request : J.Json} :
    publishStream env request h = (.ok (.inr id),t) ↔ ∃ room offer,
      h.idRoomMap h.sessionInfo.roomId = some room ∧ textAt request "offer" = .ok offer ∧
      participantPublish env h.sessionInfo.roomId room h.sessionInfo.participantId offer h =
        (.ok (some id),t) := by
  rw [publishStream,get_bind]
  cases hroom : h.idRoomMap h.sessionInfo.roomId with
  | none => simp [pure_eq_ok]
  | some room =>
      simp only [lib_bind_eq_ok,Option.some.injEq]
      constructor
      · rintro ⟨offer,hoffer,hp⟩
        exact ⟨room,offer,rfl,hoffer,inr_eq_ok.mp hp⟩
      · rintro ⟨_,offer,rfl,hoffer,hp⟩
        exact ⟨offer,hoffer,inr_eq_ok.mpr hp⟩

theorem subscribeStream_eq_ok {request : J.Json} :
    subscribeStream env request h = (.ok (.inr id),t) ↔
      ∃ streamId, textAt request "streamId" = .ok streamId ∧
      ∃ offer, textAt request "offer" = .ok offer ∧
      ∃ participantId, textAt request "participantId" = .ok participantId ∧
      ∃ room, h.idRoomMap h.sessionInfo.roomId = some room ∧
        participantSubscribe env h.sessionInfo.roomId room h.sessionInfo.participantId
          participantId streamId offer h = (.ok (some id),t) := by
  rw [subscribeStream]
  simp only [lib_bind_eq_ok,get_bind]
  cases hroom : h.idRoomMap h.sessionInfo.roomId with
  | none => simp [pure_eq_ok]
  | some room =>
      simp only [Option.some.injEq,exists_eq_left']
      constructor
      · rintro ⟨streamId,hs,offer,ho,participantId,hp,hr⟩
        exact ⟨streamId,hs,offer,ho,participantId,hp,inr_eq_ok.mp hr⟩
      · rintro ⟨streamId,hs,offer,ho,participantId,hp,hr⟩
        exact ⟨streamId,hs,offer,ho,participantId,hp,inr_eq_ok.mpr hr⟩

/-- A property of the registered stream is one of the accepted offer. -/
theorem publishStream_registers_iff {request : J.Json} {P : StreamData J → Prop} :
    (∃ id t, publishStream env request h = (.ok (.inr id),t) ∧ P (t.streams id)) ↔
      ∃ sdp, PublicationAccepted env request h sdp ∧ P { sdp := sdp } := by
  simp only [publishStream_eq_ok,participantPublish_eq_ok]
  constructor
  · rintro ⟨_,_,⟨room,offer,hroom,hoffer,hp,accepted,ha,hdtls,rfl,rfl⟩,hP⟩
    rw [register_streams] at hP
    exact ⟨_,⟨room,offer,accepted,hroom,hp,hoffer,ha,hdtls,rfl⟩,hP⟩
  · rintro ⟨_,⟨room,offer,accepted,hroom,hp,hoffer,ha,hdtls,rfl⟩,hP⟩
    refine ⟨_,_,⟨room,offer,hroom,hoffer,hp,accepted,ha,hdtls,rfl,rfl⟩,?_⟩
    rw [register_streams]
    exact hP

theorem subscribeStream_registers_iff {request : J.Json} {P : StreamData J → Prop} :
    (∃ id t, subscribeStream env request h = (.ok (.inr id),t) ∧ P (t.streams id)) ↔
      ∃ sdp, SubscriptionAccepted env request h sdp ∧ P { sdp := sdp } := by
  simp only [subscribeStream_eq_ok,participantSubscribe_eq_ok]
  constructor
  · rintro ⟨_,_,⟨streamId,hs,offer,ho,participantId,hp,room,hroom,room',calls,accepted,hsub,ha,
      hdtls,rfl,rfl⟩,hP⟩
    rw [register_streams] at hP
    rw [Room.participantSubscribe] at hsub
    split at hsub
    · rename_i hin
      exact ⟨_,⟨room,streamId,offer,participantId,accepted,hroom,hs,ho,hp,hin.1,hin.2.1,
        hin.2.2,ha,hdtls,rfl⟩,hP⟩
    · exact absurd hsub (by simp)
  · rintro ⟨_,⟨room,streamId,offer,participantId,accepted,hroom,hs,ho,hp,hsrc,hdst,hpub,ha,
      hdtls,rfl⟩,hP⟩
    refine ⟨_,_,⟨streamId,hs,offer,ho,participantId,hp,room,hroom,_,_,accepted,
      if_pos ⟨hsrc,hdst,hpub⟩,ha,hdtls,rfl,rfl⟩,?_⟩
    rw [register_streams]
    exact hP

end Registered
end Handler
end Ylrtc.Signaling
