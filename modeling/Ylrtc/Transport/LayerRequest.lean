import Ylrtc.Transport.SubscribeStream

/-!
# Requests for a simulcast layer

What `target_layer_rid_` has to do with the requests. A request for the current
layer is dropped before the publish stream is asked, also while a switch to another
layer is pending.
-/
namespace Ylrtc.LayerRequest
open CursorParser Packet Run Subscribe SubscribeStream

/-- The RID that the publish stream selects for a request, if it selects one. -/
def selects : Event → Option (BitVec 32)
  | .setSimulcastLayer (some p) rid =>
      if rid > kMaxSimulcastLayers || rid = kInvalidLayerIndex then none
      else if p.queryRID rid = 0 then none
      else some (p.queryRID rid)
  | _ => none

/-- The RID selected for the most recent request. A stream starts with layer 1. -/
def lastSelected (es : List Event) : BitVec 32 := es.foldl (fun rid e => (selects e).getD rid) 1

@[simp] theorem lastSelected_snoc (es : List Event) (e : Event) :
    lastSelected (es++[e]) = (selects e).getD (lastSelected es) := by
  simp only [lastSelected,List.foldl_append,List.foldl_cons,List.foldl_nil]

/-- The request is not for the current layer, or the layer it selects is the target
already. -/
def Taken (s : SubscribeStream) : Event → Prop
  | .setSimulcastLayer publisher rid =>
      ∀ r, selects (.setSimulcastLayer publisher rid) = some r →
        rid ≠ s.currentLayerRid ∨ s.targetLayerRid = r
  | _ => True

/-- The step leaves the target alone, and changes the layer to the target if at all. -/
structure MaySwitch (s s' : SubscribeStream) : Prop where
  target : s'.targetLayerRid = s.targetLayerRid
  current : s'.currentLayerRid = s.currentLayerRid ∨ s'.currentLayerRid = s.targetLayerRid

theorem MaySwitch.of_eq {s s' : SubscribeStream} (ht : s'.targetLayerRid = s.targetLayerRid)
    (hc : s'.currentLayerRid = s.currentLayerRid) : MaySwitch s s' := ⟨ht,Or.inl hc⟩

theorem MaySwitch.of_onlySends {s s' : SubscribeStream} (h : OnlySends s s') : MaySwitch s s' := by
  rw [h]
  exact .of_eq rfl rfl

theorem maySwitch_requestFrame (s : SubscribeStream) (publisher : Option PublishStream)
    (rid : BitVec 32) : MaySwitch s (s.requestFrame publisher rid) := by
  rw [requestFrame_eq]
  exact .of_eq rfl rfl

theorem maySwitch_switchLayer (s : SubscribeStream) (publisher : Option PublishStream)
    (track : SubscribeStreamTrack) (clonePacket : RtpPacket) (rid : BitVec 32) :
    MaySwitch s (s.switchLayer publisher track clonePacket rid) := by
  rw [switchLayer]
  split
  · split
    · exact ⟨rfl,Or.inr rfl⟩
    · exact maySwitch_requestFrame s publisher _
  · exact .of_eq rfl rfl

theorem maySwitch_selectPacket (s : SubscribeStream) (publisher : Option PublishStream)
    (rtpPacket : RtpPacket) (behind : List Byte) :
    MaySwitch s (s.selectPacket publisher rtpPacket behind).1 := by
  have hselects := selectPacket_selects s publisher rtpPacket behind
  generalize s.selectPacket publisher rtpPacket behind = r at hselects ⊢
  cases hselects with
  | closed _ => exact .of_eq rfl rfl
  | waiting _ _ => exact maySwitch_requestFrame s publisher 0
  | unknown _ => exact .of_eq rfl rfl
  | plain _ _ => exact .of_eq rfl rfl
  | @dropped track rid _ _ _ hs' _ =>
      have h := maySwitch_switchLayer { s with dataReceived := true } publisher track
        (track.clone rtpPacket behind) rid
      rw [← hs'] at h
      exact ⟨h.target,h.current⟩
  | @selected track rid _ _ _ hs' _ =>
      have h := maySwitch_switchLayer { s with dataReceived := true } publisher track
        (track.clone rtpPacket behind) rid
      rw [← hs'] at h
      exact ⟨h.target,h.current⟩

/-- Every handler but the one for requests. -/
theorem step_maySwitch (s : SubscribeStream) {e : Event}
    (h : ∀ publisher rid, e ≠ .setSimulcastLayer publisher rid) : MaySwitch s (step s e) := by
  cases e with
  | dtlsTransportSetup => exact .of_eq rfl rfl
  | receivePublishStreamRtpPacket publisher rtpPacket behind nowMillis =>
      have hselect := maySwitch_selectPacket s publisher rtpPacket behind
      rw [step,receivePublishStreamRtpPacket]
      generalize s.selectPacket publisher rtpPacket behind = r at hselect ⊢
      obtain ⟨s',clonePacket⟩ := r
      cases clonePacket with
      | none => exact hselect
      | some clonePacket =>
          obtain ⟨htarget,hcurrent⟩ := forward_layers s' clonePacket nowMillis
          constructor
          · exact htarget.trans hselect.target
          · rw [hcurrent]
            exact hselect.current
  | setSimulcastLayer publisher rid => exact absurd rfl (h publisher rid)
  | receiveNack mediaSsrc lostPackets nowMillis =>
      rw [step,SubscribeStream.receiveNack]
      split
      · exact .of_eq rfl rfl
      · rename_i track _
        rw [SubscribeStreamTrack.receiveNack]
        split
        · exact .of_eq rfl rfl
        · have hsent := (foldl_resend_frame track s nowMillis
            track.configuration.extensionCapability lostPackets).1
          have hlayers := MaySwitch.of_onlySends hsent
          exact ⟨hlayers.target,hlayers.current⟩
  | receiveReceiverReport mediaSsrc rttMillis nowMillis =>
      rw [step,SubscribeStream.receiveReceiverReport]
      split
      · exact .of_eq rfl rfl
      · exact .of_eq rfl rfl
  | receiveTransportFeedback feedback => exact .of_eq rfl rfl

/-- A request changes the target to the selected layer, unless it is for the current
one. -/
theorem setSimulcastLayer_spec (s : SubscribeStream) (publisher : Option PublishStream)
    (rid : BitVec 32) :
    (s.setSimulcastLayer publisher rid).currentLayerRid = s.currentLayerRid ∧
      (s.setSimulcastLayer publisher rid).targetLayerRid =
        if rid = s.currentLayerRid then s.targetLayerRid
        else (selects (.setSimulcastLayer publisher rid)).getD s.targetLayerRid := by
  unfold SubscribeStream.setSimulcastLayer
  cases publisher with
  | none =>
      simp only [selects,Option.getD_none,ite_self,and_true]
  | some p =>
      simp only [selects]
      split
      · simp
      · split
        · exact ⟨rfl,rfl⟩
        · split
          · exact ⟨rfl,rfl⟩
          · exact ⟨rfl,rfl⟩

/-- After the event the target is the layer selected for the most recent request,
and if the layer changed, then to the one selected last before. -/
def FollowsLast (s : SubscribeStream) (before : List Event) (e : Event) : Prop :=
  (run step s (before++[e])).targetLayerRid = lastSelected (before++[e]) ∧
    ((run step s (before++[e])).currentLayerRid ≠ (run step s before).currentLayerRid →
      (run step s (before++[e])).currentLayerRid = lastSelected before)

/-- One event, if the target was right before. -/
theorem followsLast_iff {s : SubscribeStream} {before : List Event} (e : Event)
    (h : (run step s before).targetLayerRid = lastSelected before) :
    FollowsLast s before e ↔ Taken (run step s before) e := by
  rw [FollowsLast,run_snoc,lastSelected_snoc]
  generalize run step s before = s at h ⊢
  by_cases he : ∃ publisher rid, e = .setSimulcastLayer publisher rid
  · obtain ⟨publisher,rid,rfl⟩ := he
    obtain ⟨hcurrent,htarget⟩ := setSimulcastLayer_spec s publisher rid
    rw [step,hcurrent,htarget,Taken,← h]
    simp only [ne_eq,not_true_eq_false,false_implies,and_true]
    cases selects (.setSimulcastLayer publisher rid) with
    | none => simp
    | some r =>
        by_cases hrid : rid = s.currentLayerRid
        · simp [hrid]
        · simp [hrid]
  · have hother : ∀ publisher rid, e ≠ .setSimulcastLayer publisher rid :=
      fun publisher rid heq => he ⟨publisher,rid,heq⟩
    have hswitch := step_maySwitch s hother
    have hnone : selects e = none := by
      cases e with
      | setSimulcastLayer publisher rid => exact absurd rfl (hother publisher rid)
      | _ => rfl
    have htaken : Taken s e := by
      cases e with
      | setSimulcastLayer publisher rid => exact absurd rfl (hother publisher rid)
      | _ => trivial
    rw [hnone,Option.getD_none]
    refine ⟨fun _ => htaken,fun _ => ⟨hswitch.target.trans h,fun hne => ?_⟩⟩
    cases hswitch.current with
    | inl hsame => exact absurd hsame hne
    | inr htarget => exact htarget.trans h

/-- The target follows the requests exactly if no request for the current layer comes
while another one is the target. -/
theorem run_followsLast_iff (environment : Environment)
    (configurations : BitVec 32 → Option Configuration) (es : List Event) :
    Along (FollowsLast (start environment configurations)) es ↔
      Along (fun before e => Taken (run step (start environment configurations) before) e) es := by
  have htarget : ∀ es, Along (FollowsLast (start environment configurations)) es →
      (run step (start environment configurations) es).targetLayerRid = lastSelected es := by
    intro es h
    cases es using List.reverseRecOn with
    | nil => rfl
    | append_singleton es e => exact (along_snoc.mp h).2.1
  induction es using List.reverseRecOn with
  | nil => exact ⟨fun _ => along_nil _,fun _ => along_nil _⟩
  | append_singleton es e ih =>
      constructor
      · intro h
        obtain ⟨hes,he⟩ := along_snoc.mp h
        exact along_snoc.mpr ⟨ih.mp hes,(followsLast_iff e (htarget es hes)).mp he⟩
      · intro h
        obtain ⟨hes,he⟩ := along_snoc.mp h
        have hfollows := ih.mpr hes
        exact along_snoc.mpr ⟨hfollows,(followsLast_iff e (htarget es hfollows)).mpr he⟩

/-- Layer 2 is asked for, then layer 1, which is still the current one: the target
stays layer 2. -/
theorem not_run_followsLast : ¬∀ environment configurations es,
    Along (FollowsLast (start environment configurations)) es := by
  intro h
  have hlast := (h ⟨fun _ => true,fun _ _ => 0⟩ (fun _ => none)
    [.setSimulcastLayer (some ⟨[],[(2,800000),(1,200000)]⟩) 2,
      .setSimulcastLayer (some ⟨[],[(2,800000),(1,200000)]⟩) 1] [_] _ [] rfl).1
  exact absurd hlast (by decide)

end Ylrtc.LayerRequest
