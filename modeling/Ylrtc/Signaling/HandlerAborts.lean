import Ylrtc.Signaling.PlainJson
import Ylrtc.Signaling.Registrations

/-!
# Where the signaling handler aborts

The handler catches every exception. What it does not survive are an unknown type of a mute
request, a DTLS setup that `SetupSelector` does not know, and a track with retransmissions but
without an SSRC for them; and it throws where its response cannot be written.
-/
namespace Ylrtc.Signaling
open CursorParser Prog

variable {J : JsonLibrary}

/-! ### Answers -/

namespace Editing

theorem aborts_assignSetup {setup : Text} {s : Editing J} :
    (assignSetup setup).Aborts s ↔ setupSelector setup = none := by
  rw [assignSetup]
  cases setupSelector setup with
  | some selected => simp
  | none => simp

theorem aborts_editSection {prepare : Prog (Editing J) (Exc J) Unit} {setup : Text}
    {finish : Prog (Editing J) (Exc J) Bool} {s : Editing J} :
    (editSection prepare setup finish).Aborts s ↔
      setupSelector setup = none ∧ ∃ t, prepare s = (.ok (),t) := by
  rw [editSection,aborts_safe_bind]
  simp only [aborts_bind,aborts_assignSetup,not_aborts_safe,and_false,exists_false,or_false]
  constructor
  · rintro ⟨_,t,ht,hsetup⟩
    exact ⟨hsetup,t,ht⟩
  · rintro ⟨hsetup,t,ht⟩
    exact ⟨(),t,ht,hsetup⟩

/-- Without a setup a section does not get through. -/
theorem editSection_not_ok {prepare : Prog (Editing J) (Exc J) Unit} {setup : Text}
    {finish : Prog (Editing J) (Exc J) Bool} (hsetup : setupSelector setup = none)
    (s t : Editing J) (go : Bool) : editSection prepare setup finish s ≠ (.ok go,t) := by
  intro h
  rcases hp : safe prepare s with ⟨e | _,u⟩
  · rw [editSection,bind_error hp] at h
    exact absurd h (by simp)
  · have habort : (assignSetup setup : Prog (Editing J) (Fault (Exc J)) Unit) u =
        (.error .aborted,u) := by
      rw [assignSetup,hsetup]
      rfl
    rw [editSection,bind_ok hp,bind_error habort] at h
    exact absurd h (by simp)

end Editing

namespace SdpNegotiator

theorem aborts_inSection {α : Type} {sdp : SdpNegotiator J → J.Json}
    {put : J.Json → SdpNegotiator J → SdpNegotiator J}
    {body : Prog (Editing J) (Fault (Exc J)) α} {i : ℕ} {n : SdpNegotiator J} :
    (inSection sdp put body i).Aborts n ↔ ∃ media mediaSection,
      J.atKey (sdp n) "media" = .ok media ∧ J.index media i = .ok mediaSection ∧
        body.Aborts ⟨n,mediaSection⟩ := by
  simp only [inSection,aborts_get_bind,aborts_safe_bind,aborts_zoom,lib_eq_ok]
  constructor
  · rintro ⟨media,_,⟨hmedia,rfl⟩,mediaSection,_,⟨hsection,rfl⟩,h⟩
    exact ⟨media,mediaSection,hmedia,hsection,h⟩
  · rintro ⟨media,mediaSection,hmedia,hsection,h⟩
    exact ⟨media,n,⟨hmedia,rfl⟩,mediaSection,n,⟨hsection,rfl⟩,h⟩

theorem inSection_not_ok {α : Type} {sdp : SdpNegotiator J → J.Json}
    {put : J.Json → SdpNegotiator J → SdpNegotiator J}
    {body : Prog (Editing J) (Fault (Exc J)) α} {i : ℕ}
    (hbody : ∀ s t a, body s ≠ (.ok a,t)) (n m : SdpNegotiator J) (a : α) :
    inSection sdp put body i n ≠ (.ok a,m) := by
  intro h
  rw [inSection,bind_eq_ok] at h
  obtain ⟨n,_,_,h⟩ := h
  rw [bind_eq_ok] at h
  obtain ⟨media,_,_,h⟩ := h
  rw [bind_eq_ok] at h
  obtain ⟨mediaSection,_,_,h⟩ := h
  rw [zoom_eq_ok] at h
  obtain ⟨t,h,_⟩ := h
  exact hbody _ t a h

/-- The first section of an answer can be edited up to its setup. -/
def FirstPrepared (sdp : SdpNegotiator J → J.Json) (prepare : Prog (Editing J) (Exc J) Unit)
    (media : J.Json) (n : SdpNegotiator J) : Prop :=
  0 < J.size media ∧ ∃ sections mediaSection t, J.atKey (sdp n) "media" = .ok sections ∧
    J.index sections 0 = .ok mediaSection ∧ prepare ⟨n,mediaSection⟩ = (.ok (),t)

/-- All sections of an answer have the same setup, so that the first one decides. -/
theorem aborts_sections {sdp : SdpNegotiator J → J.Json}
    {put : J.Json → SdpNegotiator J → SdpNegotiator J}
    {prepare : Prog (Editing J) (Exc J) Unit} {setup : Text}
    {finish : Prog (Editing J) (Exc J) Bool} {media : J.Json} {n : SdpNegotiator J} :
    (whileItems (inSection sdp put (Editing.editSection prepare setup finish))
      (List.range (J.size media))).Aborts n ↔
      setupSelector setup = none ∧ FirstPrepared sdp prepare media n := by
  by_cases hsetup : setupSelector setup = none
  · rcases hsize : J.size media with _ | size
    · have hnil : ¬ (whileItems (inSection sdp put (Editing.editSection prepare setup finish))
          []).Aborts n := not_aborts_pure true n
      simp [hnil,FirstPrepared,hsize]
    · rw [List.range_succ_eq_map,whileItems,aborts_bind,aborts_inSection]
      simp only [Editing.aborts_editSection,hsetup,true_and,FirstPrepared,hsize,Nat.succ_pos]
      constructor
      · rintro (⟨sections,mediaSection,hmedia,hindex,t,ht⟩ | ⟨go,t,hgo,_⟩)
        · exact ⟨sections,mediaSection,t,hmedia,hindex,ht⟩
        · exact absurd hgo (inSection_not_ok (Editing.editSection_not_ok hsetup) n t go)
      · rintro ⟨sections,mediaSection,t,hmedia,hindex,ht⟩
        exact .inl ⟨sections,mediaSection,hmedia,hindex,t,ht⟩
  · simp only [hsetup,false_and,iff_false]
    refine not_aborts_whileItems (fun i m => ?_) _ n
    rw [aborts_inSection]
    simp [Editing.aborts_editSection,hsetup]

theorem aborts_createPublishAnswer {dtx : Bool} {n : SdpNegotiator J} :
    (createPublishAnswer dtx).Aborts n ↔ setupSelector n.remoteDtlsSetup = none ∧
      ∃ media m, beginPublishAnswer n = (.ok media,m) ∧
        FirstPrepared publishAnwserSdp Editing.preparePublish media m := by
  rw [createPublishAnswer,aborts_get_bind,aborts_safe_bind]
  simp only [aborts_bind,aborts_sections]
  constructor
  · rintro ⟨media,m,hm,⟨hsetup,hfirst⟩ | ⟨go,t,_,h⟩⟩
    · exact ⟨hsetup,media,m,hm,hfirst⟩
    · cases go with
      | true => simp [aborts_get_bind,aborts_safe_bind] at h
      | false => exact absurd h (not_aborts_pure none t)
  · rintro ⟨hsetup,media,m,hm,hfirst⟩
    exact ⟨media,m,hm,.inl ⟨hsetup,hfirst⟩⟩

theorem aborts_createSubscribeAnswer {n : SdpNegotiator J} :
    createSubscribeAnswer.Aborts n ↔ setupSelector n.remoteDtlsSetup = none ∧
      ∃ media m, beginSubscribeAnswer n = (.ok (some media),m) ∧
        FirstPrepared subscribeAnwserSdp Editing.prepareSubscribe media m := by
  rw [createSubscribeAnswer,aborts_catchThrown]
  simp only [not_aborts_pure,and_false,exists_false,or_false]
  rw [aborts_get_bind,aborts_safe_bind]
  constructor
  · rintro ⟨_ | media,m,hm,h⟩
    · exact absurd h (not_aborts_pure none m)
    · rcases aborts_bind.mp h with h | ⟨go,t,_,h⟩
      · rw [aborts_sections] at h
        exact ⟨h.1,media,m,hm,h.2⟩
      · cases go with
        | true => simp [aborts_get_bind,aborts_safe_bind] at h
        | false => exact absurd h (not_aborts_pure none t)
  · rintro ⟨hsetup,media,m,hm,hfirst⟩
    exact ⟨some media,m,hm,aborts_bind.mpr (.inl (aborts_sections.mpr ⟨hsetup,hfirst⟩))⟩

end SdpNegotiator
/-! ### Local descriptions -/

/-- A track with retransmissions but without an SSRC for them. -/
def TrackConfiguration.MissesRtxSsrc (config : TrackConfiguration) : Prop :=
  config.rtxEnabled = true ∧ config.rtxSsrc = none

theorem aborts_addPublishTrack {config : TrackConfiguration} {d : StreamData J} :
    (addPublishTrack config).Aborts d ↔ config.MissesRtxSsrc := by
  rw [addPublishTrack,aborts_get_bind,aborts_modify_bind,TrackConfiguration.MissesRtxSsrc]
  cases config.rtxEnabled with
  | true => cases config.rtxSsrc <;> simp
  | false => simp

theorem aborts_publishLocalSection {memory : TrackConfiguration} {mediaSections : J.Json} {i : ℕ}
    {d : StreamData J} : (publishLocalSection memory mediaSections i).Aborts d ↔
      ∃ mediaSection config t, J.index mediaSections i = .ok mediaSection ∧
        configurePublish memory mediaSection d = (.ok (config,true),t) ∧
        config.MissesRtxSsrc := by
  simp only [publishLocalSection,aborts_safe_bind,lib_eq_ok]
  constructor
  · rintro ⟨mediaSection,_,⟨hindex,rfl⟩,⟨config,hasSsrc⟩,t,ht,h⟩
    cases hasSsrc with
    | true => exact ⟨mediaSection,config,t,hindex,ht,aborts_addPublishTrack.mp h⟩
    | false => exact absurd h (not_aborts_pure () t)
  · rintro ⟨mediaSection,config,t,hindex,ht,h⟩
    exact ⟨mediaSection,d,⟨hindex,rfl⟩,(config,true),t,ht,aborts_addPublishTrack.mpr h⟩

/-- The sections before are configured, and the track of the next one misses an SSRC. -/
def MissingRtxSsrc (memory : TrackConfiguration) (d : StreamData J) : Prop :=
  ∃ mediaSections, d.sdp.getMediaSections = .ok mediaSections ∧
    ∃ i < J.size mediaSections, ∃ e mediaSection config t,
      forItems (publishLocalSection memory mediaSections) (List.range i) d = (.ok (),e) ∧
      J.index mediaSections i = .ok mediaSection ∧
      configurePublish memory mediaSection e = (.ok (config,true),t) ∧ config.MissesRtxSsrc

theorem range_split {n i : ℕ} {before after : List ℕ} :
    List.range n = before++i::after → before = List.range i ∧ i < n := by
  intro h
  have hlength := congrArg List.length h
  rw [List.length_range,List.length_append,List.length_cons] at hlength
  have hlt : before.length < n := by omega
  have hi : (List.range n)[before.length]? = some i := by
    rw [h,List.getElem?_append_right (Nat.le_refl _),Nat.sub_self]
    rfl
  rw [List.getElem?_range hlt,Option.some.injEq] at hi
  have hbefore := congrArg (List.take before.length) h
  rw [List.take_left,List.take_range,Nat.min_eq_left hlt.le] at hbefore
  exact ⟨by rw [← hi,hbefore],hi ▸ hlt⟩

theorem aborts_publishSetLocalDescription {memory : TrackConfiguration} {d : StreamData J} :
    (publishSetLocalDescription memory).Aborts d ↔ MissingRtxSsrc memory d := by
  simp only [publishSetLocalDescription,aborts_get_bind,aborts_safe_bind,lib_eq_ok,
    aborts_forItems,aborts_publishLocalSection]
  constructor
  · rintro ⟨mediaSections,_,⟨hms,rfl⟩,before,i,after,e,hsplit,he,mediaSection,config,t,h⟩
    obtain ⟨rfl,hi⟩ := range_split hsplit
    exact ⟨mediaSections,hms,i,hi,e,mediaSection,config,t,he,h⟩
  · rintro ⟨mediaSections,hms,i,hi,e,mediaSection,config,t,he,h⟩
    refine ⟨mediaSections,d,⟨hms,rfl⟩,List.range i,i,
      (List.range (J.size mediaSections)).drop (i+1),e,?_,he,mediaSection,config,t,h⟩
    have hdrop := List.drop_eq_getElem_cons (l := List.range (J.size mediaSections))
      (i := i) (by rw [List.length_range]; exact hi)
    rw [List.getElem_range] at hdrop
    rw [← hdrop]
    have htake : List.range i = (List.range (J.size mediaSections)).take i := by
      rw [List.take_range,Nat.min_eq_left hi.le]
    rw [htake,List.take_append_drop]

namespace Handler

/-! ### Requests -/

theorem aborts_updateMuteInfo {type : Text} {muted : Bool} {d : StreamData J} :
    (updateMuteInfo type muted).Aborts d ↔ type ≠ text "audio" ∧ type ≠ text "video" := by
  rw [updateMuteInfo]
  split
  · rename_i htype
    simp [htype]
  · rename_i htype
    split
    · rename_i hvideo
      simp [hvideo]
    · rename_i hvideo
      simp [htype,hvideo]

/-- An answered stream is described. -/
theorem aborts_described {id : Id} {value : J.Json}
    {setLocalDescription : Prog (StreamData J) (Fault (Exc J)) Unit} {h : Handler J} :
    Aborts (do
      respond "answer" value
      onStream id setLocalDescription
      pure YlError.kOk) h ↔ setLocalDescription.Aborts (h.streams id) := by
  rw [respond,aborts_modify_bind,aborts_bind,onStream,aborts_zoom]
  constructor
  · rintro (ha | ⟨_,t,_,ha⟩)
    · exact ha
    · exact absurd ha (not_aborts_pure _ t)
  · exact .inl

theorem aborts_complete {failed : YlError} {id : Id}
    {createAnswer : Prog (SdpNegotiator J) (Fault (Exc J)) (Option Text)}
    {setLocalDescription : Prog (StreamData J) (Fault (Exc J)) Unit} {h : Handler J} :
    (complete failed id createAnswer setLocalDescription).Aborts h ↔
      createAnswer.Aborts (h.streams id).sdp ∨
        ∃ answer n, createAnswer (h.streams id).sdp = (.ok (some answer),n) ∧
          setLocalDescription.Aborts { h.streams id with sdp := n } := by
  rw [complete,respond,aborts_modify_bind,aborts_bind,onStream,aborts_zoom,onSdp,aborts_zoom]
  refine or_congr Iff.rfl ?_
  simp only [zoom_eq_ok]
  constructor
  · rintro ⟨_ | answer,_,⟨_,⟨n,hn,rfl⟩,rfl⟩,ha⟩
    · exact absurd ha (not_aborts_pure failed _)
    · have hd := aborts_described.mp ha
      simp only [Function.update_self] at hd
      exact ⟨answer,n,hn,hd⟩
  · rintro ⟨answer,n,hn,ha⟩
    refine ⟨some answer,_,⟨_,⟨n,hn,rfl⟩,rfl⟩,aborts_described.mpr ?_⟩
    simp only [Function.update_self]
    exact ha

/-- A publish request aborts when its stream is answered or described. -/
theorem aborts_publish {env : Environment} {request : J.Json} {h : Handler J} :
    (publish env request).Aborts h ↔ ∃ sdp, PublicationAccepted env request h sdp ∧
      ((SdpNegotiator.createPublishAnswer env.enableDtx).Aborts sdp ∨
        ∃ answer n, SdpNegotiator.createPublishAnswer env.enableDtx sdp =
          (.ok (some answer),n) ∧ MissingRtxSsrc env.memory { sdp := n }) := by
  rw [← publishStream_registers_iff (P := fun d =>
    (SdpNegotiator.createPublishAnswer env.enableDtx).Aborts d.sdp ∨
      ∃ answer n, SdpNegotiator.createPublishAnswer env.enableDtx d.sdp =
        (.ok (some answer),n) ∧ MissingRtxSsrc env.memory { d with sdp := n })]
  rw [publish,aborts_safe_bind]
  constructor
  · rintro ⟨error | id,h',hs,ha⟩
    · exact absurd ha (not_aborts_pure error h')
    · have hc := aborts_complete.mp ha
      simp only [aborts_publishSetLocalDescription] at hc
      exact ⟨id,h',hs,hc⟩
  · rintro ⟨id,h',hs,hc⟩
    refine ⟨.inr id,h',hs,aborts_complete.mpr ?_⟩
    simp only [aborts_publishSetLocalDescription]
    exact hc

/-- A subscribe request aborts when its stream is answered. -/
theorem aborts_subscribe {env : Environment} {request : J.Json} {h : Handler J} :
    (subscribe env request).Aborts h ↔ ∃ sdp, SubscriptionAccepted env request h sdp ∧
      SdpNegotiator.createSubscribeAnswer.Aborts sdp := by
  rw [← subscribeStream_registers_iff
    (P := fun d => SdpNegotiator.createSubscribeAnswer.Aborts d.sdp)]
  rw [subscribe,aborts_safe_bind]
  constructor
  · rintro ⟨error | id,h',hs,ha⟩
    · exact absurd ha (not_aborts_pure error h')
    · have hc := aborts_complete.mp ha
      simp only [not_aborts_safe,and_false,exists_false,or_false] at hc
      exact ⟨id,h',hs,hc⟩
  · rintro ⟨id,h',hs,hc⟩
    exact ⟨.inr id,h',hs,aborts_complete.mpr (.inl hc)⟩

theorem aborts_muteOrUnmute {request : J.Json} {h : Handler J} :
    (muteOrUnmute request).Aborts h ↔ ∃ streamId muted type room,
      textAt request "streamId" = .ok streamId ∧
      (do J.toBool (← J.atKey request "muted")) = .ok muted ∧
      textAt request "type" = .ok type ∧ h.idRoomMap h.sessionInfo.roomId = some room ∧
      isPublishStream room streamId = true ∧ type ≠ text "audio" ∧ type ≠ text "video" := by
  simp only [muteOrUnmute,aborts_safe_bind,lib_eq_ok,aborts_get_bind]
  constructor
  · rintro ⟨streamId,_,⟨hs,rfl⟩,muted,_,⟨hm,rfl⟩,type,_,⟨ht,rfl⟩,ha⟩
    cases hroom : h.idRoomMap h.sessionInfo.roomId with
    | none =>
        simp only [hroom] at ha
        exact absurd ha (not_aborts_pure _ h)
    | some room =>
        simp only [hroom] at ha
        by_cases hpublish : isPublishStream room streamId = true
        · rw [if_pos hpublish,aborts_bind,onStream,aborts_zoom,aborts_updateMuteInfo] at ha
          rcases ha with ha | ⟨_,t,_,ha⟩
          · exact ⟨streamId,muted,type,room,hs,hm,ht,rfl,hpublish,ha⟩
          · exact absurd ha (not_aborts_pure _ t)
        · rw [if_neg hpublish] at ha
          exact absurd ha (not_aborts_pure _ h)
  · rintro ⟨streamId,muted,type,room,hs,hm,ht,hroom,hpublish,ha⟩
    refine ⟨streamId,h,⟨hs,rfl⟩,muted,h,⟨hm,rfl⟩,type,h,⟨ht,rfl⟩,?_⟩
    simp only [hroom]
    rw [if_pos hpublish,aborts_bind,onStream,aborts_zoom,aborts_updateMuteInfo]
    exact .inl ha

theorem aborts_act {env : Environment} {action : Text} {request : J.Json} {h : Handler J} :
    (act env action request).Aborts h ↔
      action = text "subscribe" ∧ (subscribe env request).Aborts h ∨
      action = text "publish" ∧ (publish env request).Aborts h ∨
      action = text "publish_muteOrUnmute" ∧ (muteOrUnmute request).Aborts h := by
  constructor
  · intro ha
    rw [act] at ha
    split at ha
    · rename_i haction
      exact .inl ⟨haction,ha⟩
    split at ha
    · rename_i haction
      exact .inr (.inl ⟨haction,ha⟩)
    split at ha
    · exact absurd ha (not_aborts_safe _ h)
    split at ha
    · rename_i haction
      exact .inr (.inr ⟨haction,ha⟩)
    split at ha
    · rw [aborts_modify_bind] at ha
      exact absurd ha (not_aborts_pure _ _)
    split at ha
    · exact absurd ha (not_aborts_safe _ h)
    · exact absurd ha (not_aborts_pure _ h)
  · rintro (⟨rfl,ha⟩ | ⟨rfl,ha⟩ | ⟨rfl,ha⟩)
    · rw [act,if_pos rfl]
      exact ha
    · rw [act,if_neg (by decide),if_pos rfl]
      exact ha
    · rw [act,if_neg (by decide),if_neg (by decide),if_neg (by decide),if_pos rfl]
      exact ha

/-- Only the action aborts: reading the request, writing the result and the handler of the
exceptions do not. -/
theorem aborts_answer {env : Environment} {signaling : Text} {h : Handler J} :
    (answer env signaling).Aborts h ↔ ∃ action request h',
      readRequest signaling h = (.ok (action,request),h') ∧
        (act env action request).Aborts h' := by
  have hrespond : ∀ (t : Handler J) (result : YlError), ¬ Aborts (do
      respond "error" (J.ofBool (result != .kOk))
      respond "detail" (J.ofText (ylErrorToString result))
      pure (result != .kOk) : Prog (Handler J) (Fault (Exc J)) Bool) t :=
    fun t result => not_aborts_pure (result != .kOk) _
  have hhandler : ∀ (t : Handler J) (e : Exc J), ¬ Aborts (do
      respond "error" (J.ofBool true)
      respond "detail" (J.ofText (text "Bad request. Reason: "++e.what++text "."))
      pure true : Prog (Handler J) (Fault (Exc J)) Bool) t :=
    fun t e => not_aborts_pure true _
  rw [answer,aborts_catchThrown]
  simp only [hhandler,and_false,exists_false,or_false]
  rw [aborts_safe_bind]
  constructor
  · rintro ⟨⟨action,request⟩,h',hr,ha⟩
    rcases aborts_bind.mp ha with ha | ⟨result,t,_,ha⟩
    · exact ⟨action,request,h',hr,ha⟩
    · exact absurd ha (hrespond t result)
  · rintro ⟨action,request,h',hr,ha⟩
    exact ⟨(action,request),h',hr,aborts_bind.mpr (.inl ha)⟩

/-! ### When the handler returns -/

/-- A mute of a publish stream of the room is a mute of audio or video. -/
def MutesKnownType (request : J.Json) (h : Handler J) : Prop :=
  ∀ streamId muted type room, textAt request "streamId" = .ok streamId →
    (do J.toBool (← J.atKey request "muted")) = .ok muted →
    textAt request "type" = .ok type → h.idRoomMap h.sessionInfo.roomId = some room →
    isPublishStream room streamId = true → type = text "audio" ∨ type = text "video"

/-- The setup of an accepted offer is known, or its answer fails before the setup; and the
tracks of the answer have their SSRCs for retransmissions. -/
def PublishAnswerable (env : Environment) (request : J.Json) (h : Handler J) : Prop :=
  ∀ sdp, PublicationAccepted env request h sdp →
    (setupSelector sdp.remoteDtlsSetup = none →
      ∀ media m, SdpNegotiator.beginPublishAnswer sdp = (.ok media,m) →
        ¬ SdpNegotiator.FirstPrepared SdpNegotiator.publishAnwserSdp Editing.preparePublish
          media m) ∧
    ∀ answer n, SdpNegotiator.createPublishAnswer env.enableDtx sdp = (.ok (some answer),n) →
      ¬ MissingRtxSsrc env.memory { sdp := n }

/-- The setup of an accepted offer is known, or its answer fails before the setup. -/
def SubscribeAnswerable (env : Environment) (request : J.Json) (h : Handler J) : Prop :=
  ∀ sdp, SubscriptionAccepted env request h sdp →
    setupSelector sdp.remoteDtlsSetup = none →
      ∀ media m, SdpNegotiator.beginSubscribeAnswer sdp = (.ok (some media),m) →
        ¬ SdpNegotiator.FirstPrepared SdpNegotiator.subscribeAnwserSdp
          Editing.prepareSubscribe media m

/-- What the handler asks of a request and the state, that it may not abort. -/
def Survives (env : Environment) (signaling : Text) (h : Handler J) : Prop :=
  ∀ action request h', readRequest signaling h = (.ok (action,request),h') →
    (action = text "subscribe" → SubscribeAnswerable env request h') ∧
    (action = text "publish" → PublishAnswerable env request h') ∧
    (action = text "publish_muteOrUnmute" → MutesKnownType request h')

theorem not_aborts_answer_iff {env : Environment} {signaling : Text} {h : Handler J} :
    ¬ (answer env signaling).Aborts h ↔ Survives env signaling h := by
  rw [aborts_answer]
  simp only [aborts_act,not_exists,not_and,not_or,Survives]
  refine forall_congr' fun action => forall_congr' fun request => forall_congr' fun h' =>
    imp_congr_right fun _ => and_congr (imp_congr_right fun _ => ?_)
      (and_congr (imp_congr_right fun _ => ?_) (imp_congr_right fun _ => ?_))
  · rw [aborts_subscribe]
    simp only [SdpNegotiator.aborts_createSubscribeAnswer,not_exists,not_and,
      SubscribeAnswerable]
  · rw [aborts_publish]
    simp only [SdpNegotiator.aborts_createPublishAnswer,not_exists,not_and,not_or,
      PublishAnswerable]
  · rw [aborts_muteOrUnmute]
    simp only [not_exists,not_and,MutesKnownType,ne_eq,not_not]
    refine forall_congr' fun streamId => forall_congr' fun muted => forall_congr' fun type =>
      forall_congr' fun room => ?_
    simp only [or_iff_not_imp_left]

/-- The response can be written. -/
def Writable (env : Environment) (signaling : Text) (h : Handler J) : Prop :=
  ∀ error h', answer env signaling h = (.ok error,h') →
    ∃ response, J.dump (J.object h'.response) = .ok response

/-- What is answered is written. -/
theorem handleSignaling_eq_ok {env : Environment} {signaling response : Text} {error : Bool}
    {h h' : Handler J} : handleSignaling env signaling h = (.ok (error,response),h') ↔
      answer env signaling { h with response := [] } = (.ok error,h') ∧
        J.dump (J.object h'.response) = .ok response := by
  have hstart : handleSignaling env signaling h =
      (answer env signaling >>= writeResponse) { h with response := [] } := rfl
  rw [hstart,bind_eq_ok]
  constructor
  · rintro ⟨told,t,ht,hw⟩
    rw [writeResponse,get_bind,bind_eq_ok] at hw
    obtain ⟨written,u,hu,hpure⟩ := hw
    obtain ⟨hd,rfl⟩ := lib_eq_ok.mp (safe_eq_ok.mp hu)
    obtain ⟨hok,rfl⟩ := Prod.mk.inj hpure
    obtain ⟨rfl,rfl⟩ := Prod.mk.inj (Except.ok.inj hok)
    exact ⟨ht,hd⟩
  · rintro ⟨ht,hd⟩
    refine ⟨error,h',ht,?_⟩
    rw [writeResponse,get_bind]
    exact bind_ok (safe_eq_ok.mpr (lib_eq_ok.mpr ⟨hd,rfl⟩))

/-- The handler has caught all exceptions. -/
theorem answer_not_thrown {env : Environment} {signaling : Text} {h t : Handler J} {e : Exc J} :
    answer env signaling h ≠ (.error (.thrown e),t) := by
  rw [answer,catchThrown]
  split
  · intro hc
    change (Except.ok true,_) = _ at hc
    exact absurd (congrArg Prod.fst hc) (by simp)
  · rename_i hnot
    exact fun hc => hnot e t hc

/-- The handler returns exactly if nothing aborts and the response can be written. -/
theorem handleSignaling_returns_iff (env : Environment) (signaling : Text) (h : Handler J) :
    (∃ result h', handleSignaling env signaling h = (.ok result,h')) ↔
      Survives env signaling { h with response := [] } ∧
        Writable env signaling { h with response := [] } := by
  rw [← not_aborts_answer_iff]
  constructor
  · rintro ⟨⟨error,response⟩,h',hreturns⟩
    obtain ⟨ha,hd⟩ := handleSignaling_eq_ok.mp hreturns
    refine ⟨?_,fun told t ht => ?_⟩
    · rw [Aborts,ha]
      simp
    · rw [ha] at ht
      obtain ⟨-,rfl⟩ := Prod.mk.inj ht
      exact ⟨response,hd⟩
  · rintro ⟨haborts,hw⟩
    rcases ha : answer env signaling { h with response := [] } with ⟨(e | _) | error,t⟩
    · exact absurd ha answer_not_thrown
    · rw [Aborts,ha] at haborts
      exact absurd rfl haborts
    · obtain ⟨response,hd⟩ := hw error t ha
      exact ⟨(error,response),t,handleSignaling_eq_ok.mpr ⟨ha,hd⟩⟩

/-- A mute of neither audio nor video. -/
def muteScreen : Value := .object [("action",.string (text "publish_muteOrUnmute")),
  ("muted",.bool true),("streamId",.string (text "camera")),("type",.string (text "screen"))]

/-- The session of a participant who publishes one stream. -/
def publisher : Handler (plainJson [muteScreen] []) where
  idRoomMap := Function.update (fun _ => none) (text "room") (some {
    participantIdSet := {text "ann"}
    participantPublishsMap := SetMap.insert {} (text "ann") (text "camera") })
  sessionInfo := ⟨text "room",text "ann"⟩

theorem muteScreen_not_returns : ¬ ∃ result h', handleSignaling
    { streamId := text "s", order := fun _ => [] } muteScreen.written publisher =
      (.ok result,h') := by
  have haborts : (handleSignaling { streamId := text "s", order := fun _ => [] }
      muteScreen.written publisher).1 = .error .aborted := rfl
  rintro ⟨result,h',h⟩
  rw [h] at haborts
  exact absurd haborts (by simp)

end Handler
end Ylrtc.Signaling
