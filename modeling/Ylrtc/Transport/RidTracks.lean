import Ylrtc.Transport.PublishStream

/-!
# Tracks of simulcast layers

What a publish stream without SSRCs in its SDP learns over all sequences of packets. The
maps are right as long as no RTX packet is the first of its SSRC behind its RID's primary
packet, and no stream id is unknown or comes twice; each such packet breaks them.
-/
namespace Ylrtc.Publish
open ByteBuffer CursorParser HeaderExtension Packet PublishStream Run

/-! ### All capabilities -/

section LearnAll
variable {s s' : PublishStream} {p : RtpPacket}

theorem insert_self {α : Type} (m : Keyed α) (key : BitVec 32) (a b : α) :
    (m.insert key a).insert key b = m.insert key a := by
  funext k
  simp only [Keyed.insert,true_and]
  by_cases hm : m key = none
  · simp only [hm,if_true,and_true]
    simp
  · simp only [hm,if_false,and_false]

/-- One RID is not read as both types. -/
theorem not_rtx_of_primary {rid : BitVec 32} {c d : RtpHeaderExtensionCapability}
    (hc : s.reading p c = .primary rid) : s.reading p d ≠ .rtx rid := by
  intro hd
  simp only [PublishStream.reading] at hc hd
  cases hrid : readRid p c with
  | none => simp [hrid] at hc
  | some r =>
      cases hrid' : readRid p d with
      | none => simp [hrid'] at hd
      | some r' =>
          simp only [hrid] at hc
          simp only [hrid'] at hd
          split at hc
          · simp at hc
          rename_i config hconfig
          split at hd
          · simp at hd
          rename_i config' hconfig'
          split at hc
          · rename_i hprimary
            split at hd
            · simp at hd
            split at hd
            · rename_i hne _
              rw [Reading.primary.injEq] at hc
              rw [Reading.rtx.injEq] at hd
              rw [hc,← hd,hconfig',Option.some.injEq] at hconfig
              exact hne (hconfig ▸ hprimary)
            · simp at hd
          · split at hc
            · simp at hc
            · simp at hc

theorem exists_configuration {rid : BitVec 32} {c : RtpHeaderExtensionCapability}
    (hc : s.reading p c = .primary rid) : ∃ config, s.ridConfigurationMap rid = some config := by
  simp only [PublishStream.reading] at hc
  split at hc
  · simp at hc
  split at hc
  · simp at hc
  rename_i r _ config hconfig
  split at hc
  · rw [Reading.primary.injEq] at hc
    exact ⟨config,hc ▸ hconfig⟩
  split at hc
  · simp at hc
  · simp at hc

/-- The state behind the loop over the capabilities. -/
structure LearnedAll (p : RtpPacket) (rids : List (BitVec 32)) (s s' : PublishStream) : Prop where
  noRtx : s'.NoRtx
  trackRids : s'.trackRids = s.trackRids ++ rids
  ssrcTrackMap : s'.ssrcTrackMap =
    if rids = [] then s.ssrcTrackMap else s.ssrcTrackMap.insert p.ssrc s.tracks.length

/-- The packet can be read under each capability without a fault. -/
def Readable (s : PublishStream) (readings : List Reading) : Prop :=
  .unknown ∉ readings ∧ ∀ rid, .rtx rid ∈ readings → rid ∉ s.trackRids

theorem readable_nil (s : PublishStream) : Readable s [] :=
  ⟨List.not_mem_nil,fun _ hrid => absurd hrid List.not_mem_nil⟩

theorem readable_nothing {rs : List Reading} : Readable s (.nothing::rs) ↔ Readable s rs := by
  simp only [Readable,List.mem_cons,reduceCtorEq,false_or]

theorem not_readable_unknown {rs : List Reading} : ¬Readable s (.unknown::rs) :=
  fun h => h.1 List.mem_cons_self

theorem readable_rtx {rid : BitVec 32} {rs : List Reading} :
    Readable s (.rtx rid::rs) ↔ rid ∉ s.trackRids ∧ Readable s rs := by
  constructor
  · intro h
    exact ⟨h.2 rid List.mem_cons_self,fun hmem => h.1 (List.mem_cons_of_mem _ hmem),
      fun r hr => h.2 r (List.mem_cons_of_mem _ hr)⟩
  · intro h
    constructor
    · intro hmem
      cases List.mem_cons.mp hmem with
      | inl heq => simp at heq
      | inr hrest => exact h.2.1 hrest
    · intro r hr
      cases List.mem_cons.mp hr with
      | inl heq =>
          rw [Reading.rtx.injEq] at heq
          exact heq ▸ h.1
      | inr hrest => exact h.2.2 r hrest

/-- A new track does not make another reading a fault. -/
theorem readable_primary {rid : BitVec 32} {rs : List Reading}
    (htracks : s'.trackRids = s.trackRids ++ [rid]) (hrtx : .rtx rid ∉ rs) :
    Readable s (.primary rid::rs) ↔ Readable s' rs := by
  simp only [Readable,List.mem_cons,reduceCtorEq,false_or]
  refine and_congr_right fun _ => forall_congr' fun r => ?_
  rw [htracks,List.mem_append,List.mem_singleton]
  constructor
  · intro h hr hmem
    cases hmem with
    | inl hold => exact h hr hold
    | inr heq => exact hrtx (heq ▸ hr)
  · intro h hr hmem
    exact h hr (.inl hmem)

/-- The loop ends without a fault exactly when it meets neither an unknown RID nor the RTX
packet of a track. -/
theorem learnAll_spec (h : s.NoRtx) (cs : List RtpHeaderExtensionCapability) :
    match cs.foldlM (learn p) s with
    | .error _ => ¬Readable s (cs.map (s.reading p))
    | .ok s' => Readable s (cs.map (s.reading p)) ∧
        LearnedAll p ((cs.map (s.reading p)).filterMap Reading.primaryRid) s s' := by
  induction cs generalizing s with
  | nil =>
      rw [List.foldlM_nil]
      exact ⟨readable_nil s,h,(List.append_nil _).symm,rfl⟩
  | cons c cs ih =>
      rw [List.foldlM_cons,learn_eq h,List.map_cons]
      cases hreading : s.reading p c with
      | nothing =>
          rw [readable_nothing]
          exact ih h
      | unknown => exact not_readable_unknown
      | rtx rid =>
          by_cases hmem : rid ∈ s.trackRids
          · simp only [if_pos hmem]
            exact fun hreadable => (readable_rtx.mp hreadable).1 hmem
          · simp only [if_neg hmem]
            rw [readable_rtx.trans (and_iff_right hmem)]
            exact ih h
      | primary rid =>
          cases exists_configuration hreading with
          | intro config hconfig =>
              simp only [hconfig]
              have hih := ih (h.addTrack p.ssrc c hconfig)
              have htracks : (s.addTrack p.ssrc rid c config).trackRids = s.trackRids ++ [rid] := by
                simp only [PublishStream.trackRids,addTrack,List.map_append,List.map_cons,
                  List.map_nil]
              have hrtx : Reading.rtx rid ∉ cs.map (s.reading p) := by
                intro hmem
                cases List.mem_map.mp hmem with
                | intro d hd => exact not_rtx_of_primary hreading hd.2
              rw [reading_addTrack hconfig,← readable_primary htracks hrtx] at hih
              change match cs.foldlM (learn p) (s.addTrack p.ssrc rid c config) with
                | .error _ => _
                | .ok s' => _
              split at hih
              · exact hih
              · rename_i s' hs'
                refine ⟨hih.1,hih.2.noRtx,?_,?_⟩
                · rw [hih.2.trackRids,htracks,List.append_assoc]
                  rfl
                · rw [hih.2.ssrcTrackMap]
                  simp only [addTrack,insert_self,ite_self]
                  rfl

end LearnAll

/-! ### Runs -/

/-- A publish stream with the SSRCs of the packets received so far and the RIDs whose
primary packets were among them. -/
structure History where
  stream : PublishStream
  received : List (BitVec 32) := []
  seen : List (BitVec 32) := []

/-- The state behind a fault is not looked at: no property below holds of the step. -/
def History.step (h : History) (datagram : Datagram) : History :=
  match datagram.create with
  | none => h
  | some p =>
      { stream := match h.stream.onRtpPacketReceive datagram with
          | .ok r => r.2
          | .error _ => h.stream
        received := p.ssrc::h.received
        seen := h.stream.primaryRids p ++ h.seen }

/-- What a packet must do: the handler returns, no RID has two tracks, only SSRCs of
received packets are mapped, an RTX packet of a RID that was seen goes to the RID's track,
and an unknown RID changes nothing. -/
def Learned (h : History) (datagram : Datagram) : Prop :=
  ∃ track s', h.stream.onRtpPacketReceive datagram = .ok (track,s') ∧
    s'.trackRids.Nodup ∧
    (∀ ssrc, s'.ssrcTrackMap ssrc ≠ none → ssrc ∈ (h.step datagram).received) ∧
    ∀ p, datagram.create = some p →
      (∀ rid ∈ h.stream.rtxRids p, rid ∈ h.seen →
        (track.bind fun i => s'.trackRids[i]?) = some rid) ∧
      (.unknown ∈ h.stream.readings p → track = none ∧ s' = h.stream)

/-- No unknown RID; on an SSRC that has a track, RTX packets of that track's RID only; on a
new SSRC, primary packets that make one track for each RID, and no RTX packet of a track. -/
def Unambiguous (h : History) (datagram : Datagram) : Prop :=
  ∀ p, datagram.create = some p →
    .unknown ∉ h.stream.readings p ∧
    match h.stream.ssrcTrackMap p.ssrc with
    | some i => ∀ rid ∈ h.stream.rtxRids p, rid ∈ h.seen → h.stream.trackRids[i]? = some rid
    | none =>
        (∀ rid, .rtx rid ∈ h.stream.readings p → rid ∉ h.stream.trackRids) ∧
        (h.stream.trackRids ++ h.stream.primaryRids p).Nodup ∧
        ∀ rid ∈ h.stream.rtxRids p, rid ∈ h.seen → (h.stream.primaryRids p).head? = some rid

/-- What the steps so far have kept. -/
structure Consistent (h : History) : Prop where
  noRtx : h.stream.NoRtx
  nodup : h.stream.trackRids.Nodup
  received : ∀ ssrc, h.stream.ssrcTrackMap ssrc ≠ none → ssrc ∈ h.received

/-- A stream whose SDP named RIDs and no SSRC. -/
structure Negotiated (s : PublishStream) : Prop where
  tracks : s.tracks = []
  ssrcTrackMap : s.ssrcTrackMap = fun _ => none
  configurations : ∀ rid config, s.ridConfigurationMap rid = some config → config.rtxSsrc = none

section Step
variable {h : History} {datagram : Datagram} {p : RtpPacket}

theorem onRtpPacketReceive_bound {i : ℕ} (hcreate : datagram.create = some p)
    (hbound : h.stream.ssrcTrackMap p.ssrc = some i) :
    h.stream.onRtpPacketReceive datagram = .ok (some i,h.stream) := by
  rw [onRtpPacketReceive,hcreate]
  simp only [hbound,Option.isSome_some,if_true]
  exact congrArg (fun track => Except.ok (track,h.stream)) hbound

theorem onRtpPacketReceive_new (hcreate : datagram.create = some p)
    (hnew : h.stream.ssrcTrackMap p.ssrc = none) :
    h.stream.onRtpPacketReceive datagram =
      (h.stream.extensionCapabilities.foldlM (learn p) h.stream).map
        fun s' => (s'.ssrcTrackMap p.ssrc,s') := by
  rw [onRtpPacketReceive,hcreate]
  simp only [hnew,Option.isSome_none,Bool.false_eq_true,if_false]
  cases h.stream.extensionCapabilities.foldlM (learn p) h.stream with
  | error e => rfl
  | ok s' => rfl

/-- The track of a new SSRC is the first one that its packet made. -/
theorem LearnedAll.track {s s' : PublishStream} {rids : List (BitVec 32)}
    (h : LearnedAll p rids s s') (hnew : s.ssrcTrackMap p.ssrc = none) :
    ((s'.ssrcTrackMap p.ssrc).bind fun i => s'.trackRids[i]?) = rids.head? := by
  rw [h.ssrcTrackMap,h.trackRids]
  cases rids with
  | nil =>
      rw [if_pos rfl,hnew]
      rfl
  | cons rid rest =>
      rw [if_neg (List.cons_ne_nil _ _)]
      simp only [Keyed.insert,hnew,and_self,if_true,Option.bind_some]
      have hlength : s.tracks.length = s.trackRids.length := (List.length_map _).symm
      rw [hlength,List.getElem?_append_right le_rfl,Nat.sub_self]
      rfl

theorem LearnedAll.keys {s s' : PublishStream} {rids : List (BitVec 32)}
    (h : LearnedAll p rids s s') {received : List (BitVec 32)}
    (hreceived : ∀ ssrc, s.ssrcTrackMap ssrc ≠ none → ssrc ∈ received) :
    ∀ ssrc, s'.ssrcTrackMap ssrc ≠ none → ssrc ∈ p.ssrc::received := by
  intro ssrc hssrc
  rw [h.ssrcTrackMap] at hssrc
  by_cases heq : ssrc = p.ssrc
  · rw [heq]
    exact List.mem_cons_self
  · apply List.mem_cons_of_mem
    apply hreceived
    split at hssrc
    · exact hssrc
    · simpa only [Keyed.insert,heq,false_and,if_false] using hssrc

/-- What is no packet changes nothing. -/
theorem learned_iff_of_none (hc : Consistent h) (hcreate : datagram.create = none) :
    Learned h datagram ↔ Unambiguous h datagram := by
  have hstep : h.step datagram = h := by rw [History.step,hcreate]
  have hreceive : h.stream.onRtpPacketReceive datagram = .ok (none,h.stream) := by
    rw [onRtpPacketReceive,hcreate]
  refine iff_of_true ⟨none,h.stream,hreceive,hc.nodup,?_,?_⟩ ?_
  · rw [hstep]
    exact hc.received
  · intro p hp
    rw [hcreate] at hp
    simp at hp
  · intro p hp
    rw [hcreate] at hp
    simp at hp

/-- An SSRC that the map has keeps its track. -/
theorem learned_iff_of_bound (hc : Consistent h) (hcreate : datagram.create = some p) {i : ℕ}
    (hbound : h.stream.ssrcTrackMap p.ssrc = some i) :
    Learned h datagram ↔ Unambiguous h datagram := by
  have hreceived : (h.step datagram).received = p.ssrc::h.received := by rw [History.step,hcreate]
  have hreceive := onRtpPacketReceive_bound hcreate hbound
  constructor
  · intro hlearned q hq
    rw [hcreate,Option.some.injEq] at hq
    cases hlearned with
    | intro track hlearned =>
        cases hlearned with
        | intro s' hlearned =>
            rw [hreceive,Except.ok.injEq,Prod.mk.injEq] at hlearned
            have hpacket := hlearned.2.2.2 p hcreate
            rw [← hq,hbound]
            rw [← hlearned.1.1,← hlearned.1.2] at hpacket
            exact ⟨fun hunknown => by simpa using (hpacket.2 hunknown).1,hpacket.1⟩
  · intro hun
    have hpacket := hun p hcreate
    rw [hbound] at hpacket
    refine ⟨some i,h.stream,hreceive,hc.nodup,?_,?_⟩
    · rw [hreceived]
      exact fun ssrc hssrc => List.mem_cons_of_mem _ (hc.received ssrc hssrc)
    · intro q hq
      rw [hcreate,Option.some.injEq] at hq
      rw [← hq]
      exact ⟨hpacket.2,fun hunknown => absurd hunknown hpacket.1⟩

/-- A new SSRC has the extensions of its packet learned. -/
theorem learned_iff_of_new (hc : Consistent h) (hcreate : datagram.create = some p)
    (hnew : h.stream.ssrcTrackMap p.ssrc = none) : Learned h datagram ↔ Unambiguous h datagram := by
  have hreceived : (h.step datagram).received = p.ssrc::h.received := by rw [History.step,hcreate]
  have hreceive := onRtpPacketReceive_new hcreate hnew
  have hspec := learnAll_spec (p := p) hc.noRtx h.stream.extensionCapabilities
  change match h.stream.extensionCapabilities.foldlM (learn p) h.stream with
    | .error _ => ¬Readable h.stream (h.stream.readings p)
    | .ok s' => Readable h.stream (h.stream.readings p) ∧
        LearnedAll p (h.stream.primaryRids p) h.stream s' at hspec
  constructor
  · intro hlearned q hq
    rw [hcreate,Option.some.injEq] at hq
    rw [← hq,hnew]
    cases hlearned with
    | intro track hlearned =>
        cases hlearned with
        | intro s' hlearned =>
            cases hlearn : h.stream.extensionCapabilities.foldlM (learn p) h.stream with
            | error e =>
                rw [hreceive,hlearn] at hlearned
                simp [Except.map] at hlearned
            | ok s₁ =>
                rw [hlearn] at hspec
                rw [hreceive,hlearn] at hlearned
                simp only [Except.map,Except.ok.injEq,Prod.mk.injEq] at hlearned
                have hpacket := hlearned.2.2.2 p hcreate
                rw [← hlearned.1.1,← hlearned.1.2,hspec.2.track hnew] at hpacket
                refine ⟨hspec.1.1,hspec.1.2,?_,hpacket.1⟩
                rw [← hspec.2.trackRids,hlearned.1.2]
                exact hlearned.2.1
  · intro hun
    have hpacket := hun p hcreate
    rw [hnew] at hpacket
    cases hlearn : h.stream.extensionCapabilities.foldlM (learn p) h.stream with
    | error e =>
        rw [hlearn] at hspec
        exact absurd ⟨hpacket.1,hpacket.2.1⟩ hspec
    | ok s' =>
        rw [hlearn] at hspec hreceive
        refine ⟨_,s',hreceive,?_,?_,?_⟩
        · rw [hspec.2.trackRids]
          exact hpacket.2.2.1
        · rw [hreceived]
          exact hspec.2.keys hc.received
        · intro q hq
          rw [hcreate,Option.some.injEq] at hq
          rw [← hq,hspec.2.track hnew]
          exact ⟨hpacket.2.2.2,fun hunknown => absurd hunknown hpacket.1⟩

/-- One packet. -/
theorem learned_iff (hc : Consistent h) : Learned h datagram ↔ Unambiguous h datagram := by
  cases hcreate : datagram.create with
  | none => exact learned_iff_of_none hc hcreate
  | some p =>
      cases hbound : h.stream.ssrcTrackMap p.ssrc with
      | some i => exact learned_iff_of_bound hc hcreate hbound
      | none => exact learned_iff_of_new hc hcreate hbound

theorem onRtpPacketReceive_noRtx {s : PublishStream} (hs : s.NoRtx)
    {r : Option ℕ × PublishStream} (hok : s.onRtpPacketReceive datagram = .ok r) : r.2.NoRtx := by
  rw [onRtpPacketReceive] at hok
  split at hok
  · rw [Except.ok.injEq] at hok
    rw [← hok]
    exact hs
  · rename_i p _
    split at hok
    · rw [← Except.ok.inj hok]
      exact hs
    · have hspec := learnAll_spec (p := p) hs s.extensionCapabilities
      cases hlearn : s.extensionCapabilities.foldlM (learn p) s with
      | error e =>
          rw [hlearn] at hok
          exact absurd hok (by simp [bind,Except.bind])
      | ok s' =>
          rw [hlearn] at hok hspec
          rw [← Except.ok.inj hok]
          exact hspec.2.noRtx

theorem Consistent.step (hc : Consistent h) (hlearned : Learned h datagram) :
    Consistent (h.step datagram) := by
  cases hcreate : datagram.create with
  | none =>
      have hstep : h.step datagram = h := by rw [History.step,hcreate]
      rw [hstep]
      exact hc
  | some p =>
      cases hlearned with
      | intro track hlearned =>
          cases hlearned with
          | intro s' hlearned =>
              have hstream : (h.step datagram).stream = s' := by
                simp only [History.step,hcreate,hlearned.1]
              constructor
              · rw [hstream]
                exact onRtpPacketReceive_noRtx hc.noRtx hlearned.1
              · rw [hstream]
                exact hlearned.2.1
              · rw [hstream]
                exact hlearned.2.2.1

theorem Negotiated.consistent {s : PublishStream} (hs : Negotiated s) :
    Consistent { stream := s } where
  noRtx := ⟨fun config hconfig => absurd (hs.tracks ▸ hconfig) List.not_mem_nil,hs.configurations⟩
  nodup := by
    rw [PublishStream.trackRids,hs.tracks]
    exact List.nodup_nil
  received := fun ssrc hssrc => absurd (congrFun hs.ssrcTrackMap ssrc) hssrc

end Step

/-- Over any sequence of packets, the maps are learned right exactly as long as the packets
are unambiguous. -/
theorem run_learned_iff (s : PublishStream) (hs : Negotiated s) (packets : List Datagram) :
    Along (fun before datagram => Learned (run History.step { stream := s } before) datagram)
        packets ↔
      Along (fun before datagram => Unambiguous (run History.step { stream := s } before) datagram)
        packets :=
  along_iff_of_invariant hs.consistent (fun _ _ hc hlearned => hc.step hlearned)
    (fun _ _ hc => learned_iff hc) packets

/-! ### The first RTX packet -/

/-- One video section with the stream ids under 1 and 2, and the RIDs 1 and 2 with payload types
96 and 97. -/
def simulcastStream : PublishStream where
  ridConfigurationMap := fun rid =>
    if rid = 1 ∨ rid = 2 then
      some { ssrc := 0, payloadType := 96, rtxPayloadType := 97, rtxEnabled := true }
    else none
  extensionCapabilities := [⟨[(.rtpStreamId,1),(.repairedRtpStreamId,2)]⟩]

/-- A packet with one header extension of one byte, a digit. -/
def layerPacket (payloadType ssrc extensionId digit : Byte) : Datagram where
  data := [0x90,payloadType,0,1,0,0,0,0,0,0,0,ssrc,0xBE,0xDE,0,1,extensionId <<< 4,digit,0,0,0]

theorem simulcastStream_negotiated : Negotiated simulcastStream where
  tracks := rfl
  ssrcTrackMap := rfl
  configurations := by
    intro rid config h
    simp only [simulcastStream] at h
    split at h
    · rw [← Option.some.inj h]
    · simp at h

/-- The primary packet of a layer is followed by its RTX packet, which dereferences the
RTX SSRC that the track does not have yet. -/
theorem not_run_learned : ¬∀ s, Negotiated s → ∀ packets,
    Along (fun before datagram => Learned (run History.step { stream := s } before) datagram)
      packets := by
  intro hall
  have hlearned := hall simulcastStream simulcastStream_negotiated
    [layerPacket 96 5 1 0x31,layerPacket 97 6 2 0x31] [layerPacket 96 5 1 0x31]
    (layerPacket 97 6 2 0x31) [] rfl
  have hfault : (run History.step { stream := simulcastStream }
      [layerPacket 96 5 1 0x31]).stream.onRtpPacketReceive (layerPacket 97 6 2 0x31) =
        .error .emptyOptional := rfl
  cases hlearned with
  | intro track hlearned =>
      cases hlearned with
      | intro s' hlearned =>
          rw [hfault] at hlearned
          exact absurd hlearned.1 (by simp)

/-- A packet of a new SSRC that reads as the primary packet of a new RID. -/
theorem unambiguous_primary {h : History} {datagram : Datagram} {p : RtpPacket} {rid : BitVec 32}
    (hcreate : datagram.create = some p) (hnew : h.stream.ssrcTrackMap p.ssrc = none)
    (hreadings : h.stream.readings p = [.primary rid])
    (hrids : (h.stream.trackRids ++ [rid]).Nodup)
    (hrtx : h.stream.rtxRids p = []) : Unambiguous h datagram := by
  intro q hq
  rw [hcreate,Option.some.injEq] at hq
  rw [← hq,hnew,hreadings,PublishStream.primaryRids,hreadings]
  refine ⟨by simp,?_,hrids,?_⟩
  · intro r hr
    simp at hr
  · intro r hr
    rw [hrtx] at hr
    exact absurd hr List.not_mem_nil

/-- The primary packets of both layers, an RTX packet before them and what is no packet. -/
theorem run_learned_iff_bothLayers :
    Along (fun before datagram =>
      Learned (run History.step { stream := simulcastStream } before) datagram)
      [layerPacket 97 6 2 0x31,layerPacket 96 5 1 0x31,layerPacket 96 7 1 0x32,⟨[0x90],[]⟩] := by
  apply (run_learned_iff simulcastStream simulcastStream_negotiated
    [layerPacket 97 6 2 0x31,layerPacket 96 5 1 0x31,layerPacket 96 7 1 0x32,⟨[0x90],[]⟩]).mpr
  refine along_snoc.mpr ⟨along_snoc.mpr ⟨along_snoc.mpr ⟨along_snoc.mpr
    ⟨along_nil _,fun p hp => ?_⟩,?_⟩,?_⟩,fun p hp => ?_⟩
  · rw [← Option.some.inj hp]
    exact ⟨by decide,fun _ _ => List.not_mem_nil,List.nodup_nil,fun _ _ hseen =>
      absurd hseen List.not_mem_nil⟩
  · exact @unambiguous_primary _ _ _ 1 rfl rfl rfl (by decide) (by decide +kernel)
  · exact @unambiguous_primary _ _ _ 2 rfl rfl rfl (by decide) (by decide +kernel)
  · cases hp

end Ylrtc.Publish
