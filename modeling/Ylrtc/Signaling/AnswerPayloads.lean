import Ylrtc.Signaling.AnswerSections

/-!
# The payload types of an answer

The answer to a publisher names offered payloads of the codec only, and the same ones in each
list, exactly where what the filters keep is one payload of the codec and at most one for its
retransmissions, and the offer maps each of them.
-/
namespace Ylrtc.Signaling
open Editing Prog

/-! ### What an answer should name -/

/-- The payload types that a section names beside its port. -/
def payloadWords (m : Value) : List Text :=
  match m.find? "payloads" with
  | some (.string payloads) => split payloads 32
  | _ => []

/-- All payload types of a section of the answer are offered and are the payload of the codec
or its payload for retransmissions, and those beside the port are those of the mappings. -/
def SectionRight (codec : Text) (m m' : Value) : Prop :=
  ∃ n, selectedPayload codec m = some n ∧ ∃ rtx : Option ℤ, (∀ r ∈ rtx, r ∈ aptPayloads m n) ∧
    (∀ p, p ∈ payloadTypes m' "rtp" ∨ p ∈ payloadTypes m' "fmtp" ∨ decimal p ∈ payloadWords m' →
      p ∈ payloadTypes m "rtp" ∧ (p = n ∨ p ∈ rtx)) ∧
    ∀ w, w ∈ payloadWords m' ↔ ∃ p ∈ payloadTypes m' "rtp", w = decimal p

/-- The answer has the sections of the offer in their order, and they are right where the
codec is selected. -/
def AnswerRight (offer answer : Value) : Prop :=
  List.Forall₂ (fun m m' => (∀ k ∉ answeredKeys, m'.find? k = m.find? k) ∧
    ∀ type codec, m.find? "type" = some (.string type) → codecOf type = some codec →
      SectionRight codec m m') (itemsOf offer "media") (itemsOf answer "media")

/-- The payload of the codec as an `int`, and the last one for its retransmissions. -/
def answerPayloads (m : Value) (c : ℤ) : List ℤ :=
  c::if lastPayload (-1) (aptPayloads m c) = -1 then []
    else [lastPayload (-1) (aptPayloads m c)]

/-- What the filters keep of a section is offered, and is the payload of the codec or one
payload for its retransmissions. -/
def SectionFits (codec : Text) (m : Value) : Prop :=
  ∃ n, selectedPayload codec m = some n ∧ ∃ rtx : Option ℤ, (∀ r ∈ rtx, r ∈ aptPayloads m n) ∧
    ∀ p ∈ answerPayloads m (asInt n)++aptPayloads m (asInt n),
      p ∈ payloadTypes m "rtp" ∧ (p = n ∨ p ∈ rtx)

section Section
variable {codec : Text} {c : ℤ} {m m' : Value}

theorem mem_answerPayloads {p : ℤ} : p ∈ answerPayloads m c ↔
    lastPayload (-1) (aptPayloads m c) ≠ -1 ∧ p = lastPayload (-1) (aptPayloads m c) ∨ p = c := by
  rw [answerPayloads,List.mem_cons]
  split
  · rename_i h
    simp [h]
  · rename_i h
    simp [h,or_comm]

theorem Editing.Filtered.mem_rtp (h : Filtered c m m') {p : ℤ} :
    p ∈ payloadTypes m' "rtp" ↔ p ∈ payloadTypes m "rtp" ∧ p ∈ answerPayloads m c := by
  rw [h.rtp,List.mem_filter,decide_eq_true_eq,mem_answerPayloads]

theorem Editing.Filtered.mem_words (h : Filtered c m m') {w : Text} :
    w ∈ payloadWords m' ↔ ∃ p ∈ answerPayloads m c, w = decimal p := by
  have hwords : payloadWords m' = (answerPayloads m c).map decimal := by
    rw [payloadWords,h.payloads]
    change split (payloadsText c _) 32 = _
    rw [payloadsText,answerPayloads]
    split
    · exact split_decimal c
    · exact split_decimals c _
  rw [hwords,List.mem_map]
  simp only [eq_comm]

theorem sectionRight_iff (hc : Chosen codec m c) (hf : Filtered c m m') :
    SectionRight codec m m' ↔ SectionFits codec m := by
  constructor
  · rintro ⟨n,hn,rtx,hrtx,hall,_⟩
    refine ⟨n,hn,rtx,hrtx,fun p hp => ?_⟩
    cases hc with
    | inl hnone =>
        rw [selectedPayload,itemsOf,hnone.1] at hn
        cases hn
    | inr hchosen =>
        obtain ⟨n',hn',rfl,_⟩ := hchosen
        obtain rfl := Option.some.inj (hn.symm.trans hn')
        apply hall p
        cases List.mem_append.mp hp with
        | inl hanswer => exact .inr (.inr (hf.mem_words.mpr ⟨p,hanswer,rfl⟩))
        | inr hapt => exact .inr (.inl ((hf.fmtp p).mpr (.inl hapt)))
  · rintro ⟨n,hn,rtx,hrtx,hall⟩
    refine ⟨n,hn,rtx,hrtx,?_⟩
    cases hc with
    | inl hnone =>
        rw [selectedPayload,itemsOf,hnone.1] at hn
        cases hn
    | inr hchosen =>
        obtain ⟨n',hn',rfl,_⟩ := hchosen
        obtain rfl := Option.some.inj (hn.symm.trans hn')
        constructor
        · intro p hp
          apply hall p
          rw [List.mem_append]
          rcases hp with hrtp | hfmtp | hword
          · exact .inl (hf.mem_rtp.mp hrtp).2
          · cases (hf.fmtp p).mp hfmtp with
            | inl hapt => exact .inr hapt
            | inr hcodec => exact .inl (mem_answerPayloads.mpr (.inr hcodec.1))
          · obtain ⟨q,hq,heq⟩ := hf.mem_words.mp hword
            exact .inl (decimal_injective heq ▸ hq)
        · intro w
          rw [hf.mem_words]
          constructor
          · rintro ⟨p,hp,rfl⟩
            exact ⟨p,hf.mem_rtp.mpr ⟨(hall p (List.mem_append_left _ hp)).1,hp⟩,rfl⟩
          · rintro ⟨p,hp,rfl⟩
            exact ⟨p,(hf.mem_rtp.mp hp).2,rfl⟩

end Section

/-! ### The answer to an offer -/

/-- The payload types of a description are numbers. -/
def NumberedSdp (sdp : Value) : Prop := ∀ m ∈ itemsOf sdp "media", NumberedSection m

section Answer
variable {parse : Text → Except Text Value} {write : Value → Except Text Text}

/-- An offer is accepted as it was read. -/
theorem setPublishOffer_ok {offer : Text} {n₀ n : SdpNegotiator (sdpJson parse write)}
    (h : SdpNegotiator.setPublishOffer offer n₀ = (.ok true,n)) :
    parse offer = .ok n.publishOfferSdp := by
  let Accepts (b : Bool) (n : SdpNegotiator (sdpJson parse write)) : Prop :=
    b = true → parse offer = .ok n.publishOfferSdp
  have hfalse : ∀ u : SdpNegotiator (sdpJson parse write),
      Ends Accepts (pure false : Prog _ (Exc (sdpJson parse write)) Bool) u :=
    fun u => ends_pure.mpr fun h => nomatch h
  suffices hends : Ends Accepts (SdpNegotiator.setPublishOffer offer) n₀ from hends true n h rfl
  unfold SdpNegotiator.setPublishOffer
  refine ends_recover (a := false) (fun _ h => nomatch h) ?_
  rw [ends_bind,ends_lib]
  intro sdp hsdp
  rw [ends_bind,ends_lib]
  intro media _
  split
  · split
    · rw [ends_bind,ends_lib]
      intro groups _
      rw [ends_bind,ends_lib]
      intro count _
      split
      · rw [ends_bind,ends_lib]
        intro sections _
        rw [ends_bind]
        refine Ends.mono (Q := fun _ _ => True) (fun _ _ _ => trivial) fun go u _ => ?_
        split
        · rw [ends_bind,ends_modify,ends_pure]
          exact fun _ => hsdp
        · exact hfalse u
      · exact hfalse n₀
    · exact hfalse n₀
  · exact hfalse n₀

/-- The sections of an answer are right exactly where the sections of the offer fit. -/
theorem answer_right_iff (hparse : ∀ t sdp, parse t = .ok sdp → NumberedSdp sdp)
    {offer answer : Text} {dtx : Bool} {n₀ n n' : SdpNegotiator (sdpJson parse write)}
    (hoffer : SdpNegotiator.setPublishOffer offer n₀ = (.ok true,n))
    (hanswer : SdpNegotiator.createPublishAnswer dtx n = (.ok (some answer),n')) :
    write n'.publishAnwserSdp = .ok answer ∧
      (AnswerRight n.publishOfferSdp n'.publishAnwserSdp ↔
        ∀ m ∈ itemsOf n.publishOfferSdp "media", ∀ type codec,
          m.find? "type" = some (.string type) → codecOf type = some codec →
            SectionFits codec m) := by
  have hnum := hparse offer _ (setPublishOffer_ok hoffer)
  obtain ⟨hwrite,hsections⟩ :=
    SdpNegotiator.createPublishAnswer_ends dtx hnum _ n' hanswer answer rfl
  refine ⟨hwrite,?_⟩
  have hiff : ∀ m m', Answered m m' →
      (((∀ k ∉ answeredKeys, m'.find? k = m.find? k) ∧ ∀ type codec,
        m.find? "type" = some (.string type) → codecOf type = some codec →
          SectionRight codec m m') ↔
      ∀ type codec, m.find? "type" = some (.string type) → codecOf type = some codec →
        SectionFits codec m) := by
    rintro m m' ⟨hframe,type,htype,hcodec⟩
    rw [and_iff_right hframe]
    refine forall_congr' fun type' => forall_congr' fun codec => forall_congr' fun htype' =>
      forall_congr' fun hcodec' => ?_
    obtain rfl := Value.string.inj (Option.some.inj (htype.symm.trans htype'))
    obtain ⟨c,hc,hf⟩ := hcodec codec hcodec'
    exact sectionRight_iff hc hf
  constructor
  · intro hright
    exact ((List.forall₂_and_left _ _).mp
      (hsections.mp (fun m m' h hS => ⟨(hiff m m' h).mp hS,h⟩) hright)).1
  · intro hfits
    exact ((List.forall₂_and_left _ _).mpr ⟨hfits,hsections⟩).imp
      fun m m' h => (hiff m m' h.2).mpr h.1

end Answer

/-- A section with VP8 and a configuration for retransmissions of it. -/
def vp8Section (rtpmaps : List Value) : Value := offeredSection "video"
  [("rtp",.array (rtpmap 96 "VP8" 90000::rtpmaps)),
    ("fmtp",.array [.object [("payload",.int 97),("config",.string (text "apt=96"))]])]

theorem vp8_numbered {rtpmaps : List Value} (h : Numbered rtpmaps) :
    NumberedSdp (offerOf (vp8Section rtpmaps)) := by
  intro m hm
  obtain rfl := List.mem_singleton.mp hm
  constructor
  · intro item hitem p hp
    cases hitem with
    | head => exact ⟨96,(Option.some.inj hp).symm⟩
    | tail _ hitem => exact h item hitem p hp
  · intro item hitem p hp
    obtain rfl := List.mem_singleton.mp hitem
    exact ⟨97,(Option.some.inj hp).symm⟩

/-- A library that reads each description as an offer of VP8. -/
abbrev vp8Json (rtpmaps : List Value) : JsonLibrary :=
  sdpJson (fun _ => .ok (offerOf (vp8Section rtpmaps))) fun _ => .ok []

/-- The negotiator behind the offer, and behind the answer to it. -/
def vp8Offered (rtpmaps : List Value) : SdpNegotiator (vp8Json rtpmaps) :=
  (SdpNegotiator.setPublishOffer [] {}).2

def vp8Answered (rtpmaps : List Value) : SdpNegotiator (vp8Json rtpmaps) :=
  (SdpNegotiator.createPublishAnswer false (vp8Offered rtpmaps)).2

theorem answer_right_iff_vp8 :
    AnswerRight (vp8Offered [rtpmap 97 "rtx" 90000]).publishOfferSdp
      (vp8Answered [rtpmap 97 "rtx" 90000]).publishAnwserSdp := by
  have hnum : Numbered [rtpmap 97 "rtx" 90000] := by
    intro item hitem p hp
    obtain rfl := List.mem_singleton.mp hitem
    exact ⟨97,(Option.some.inj hp).symm⟩
  have hparse : ∀ t sdp, (fun _ : Text => Except.ok (offerOf (vp8Section [rtpmap 97 "rtx" 90000])) :
      Text → Except Text Value) t = .ok sdp → NumberedSdp sdp := by
    rintro t _ ⟨⟩
    exact vp8_numbered hnum
  refine (answer_right_iff hparse (show SdpNegotiator.setPublishOffer [] {} = (.ok true,
    vp8Offered [rtpmap 97 "rtx" 90000]) from Prod.ext rfl rfl) (show
    SdpNegotiator.createPublishAnswer false (vp8Offered [rtpmap 97 "rtx" 90000]) =
      (.ok (some []),vp8Answered [rtpmap 97 "rtx" 90000]) from Prod.ext rfl rfl)).2.mpr ?_
  intro m hm type codec htype hcodec
  obtain rfl := List.mem_singleton.mp hm
  obtain rfl := Value.string.inj (Option.some.inj htype)
  obtain rfl := Option.some.inj hcodec
  refine ⟨96,rfl,some 97,?_,?_⟩
  · rintro _ ⟨⟩
    decide
  · decide

/-- A configuration for retransmissions without a mapping stays in the answer. -/
theorem not_answer_right : ¬∀ (parse : Text → Except Text Value)
    (write : Value → Except Text Text), (∀ t sdp, parse t = .ok sdp → NumberedSdp sdp) →
    ∀ (offer answer : Text) (dtx : Bool) (n n' : SdpNegotiator (sdpJson parse write)),
      SdpNegotiator.setPublishOffer offer {} = (.ok true,n) →
        SdpNegotiator.createPublishAnswer dtx n = (.ok (some answer),n') →
          AnswerRight n.publishOfferSdp n'.publishAnwserSdp := by
  intro hall
  have hparse : ∀ t sdp, (fun _ : Text => Except.ok (offerOf (vp8Section [])) :
      Text → Except Text Value) t = .ok sdp → NumberedSdp sdp := by
    rintro t _ ⟨⟩
    exact vp8_numbered fun item hitem => nomatch hitem
  have hright := hall _ (fun _ => .ok []) hparse [] [] false (vp8Offered []) (vp8Answered [])
    (Prod.ext rfl rfl) (Prod.ext rfl rfl)
  have hsection := (List.forall₂_cons.mp hright).1
  obtain ⟨n,_,rtx,_,hnames,_⟩ := hsection.2 (text "video") (text "VP8") rfl rfl
  have hoffered := (hnames 97 (.inr (.inl (List.mem_singleton.mpr rfl)))).1
  exact absurd hoffered (by decide)

/-! ### Payload types of an int -/

theorem asInt_of_lt {n : ℤ} (h : 0 ≤ n) (h' : n < 2^31) : asInt n = n := by
  rw [asInt,BitVec.toInt_ofInt]
  exact Int.bmod_eq_of_le (by omega) (by omega)

/-- The last of some payloads is one of them, as an `int`. -/
theorem lastPayload_cases (r : ℤ) (payloads : List ℤ) :
    (payloads = [] ∧ lastPayload r payloads = r) ∨
      ∃ n ∈ payloads, lastPayload r payloads = asInt n := by
  induction payloads using List.reverseRecOn with
  | nil => exact .inl ⟨rfl,rfl⟩
  | append_singleton payloads n _ =>
      refine .inr ⟨n,List.mem_append_right _ List.mem_cons_self,?_⟩
      rw [lastPayload,List.foldl_append]
      rfl

theorem mem_payloadTypes_of_selected {codec : Text} {m : Value} {n : ℤ}
    (h : selectedPayload codec m = some n) : n ∈ payloadTypes m "rtp" := by
  obtain ⟨item,hitem,hn⟩ := Option.bind_eq_some_iff.mp h
  exact List.mem_filterMap.mpr ⟨item,List.mem_of_find?_eq_some hitem,hn⟩

theorem mem_aptPayloads {m : Value} {c p : ℤ} (h : p ∈ aptPayloads m c) :
    p ∈ payloadTypes m "fmtp" := by
  obtain ⟨item,hitem,hp⟩ := List.mem_filterMap.mp h
  exact List.mem_filterMap.mpr ⟨item,(List.mem_filter.mp hitem).1,hp⟩

/-- What the filters keep, where the payload types are numbers of an `int`. -/
theorem mem_kept {m : Value} {c p : ℤ} (hfmtp : ∀ p ∈ payloadTypes m "fmtp", 0 ≤ p ∧ p < 2^31) :
    p ∈ answerPayloads m c++aptPayloads m c ↔ p = c ∨ p ∈ aptPayloads m c := by
  rw [List.mem_append,mem_answerPayloads]
  constructor
  · rintro ((⟨hlast,rfl⟩ | hc) | hapt)
    · cases lastPayload_cases (-1) (aptPayloads m c) with
      | inl hnone => exact absurd hnone.2 hlast
      | inr hsome =>
          obtain ⟨n,hn,heq⟩ := hsome
          have hrange := hfmtp n (mem_aptPayloads hn)
          rw [heq,asInt_of_lt hrange.1 hrange.2]
          exact .inr hn
    · exact .inl hc
    · exact .inr hapt
  · rintro (hc | hapt)
    · exact .inl (.inr hc)
    · exact .inr hapt

/-- Where the payload types are numbers of an `int`, a section fits when each payload for
retransmissions of the codec is mapped, and there is one at most beside the codec's. -/
theorem sectionFits_iff {codec : Text} {m : Value}
    (hrtp : ∀ p ∈ payloadTypes m "rtp", 0 ≤ p ∧ p < 2^31)
    (hfmtp : ∀ p ∈ payloadTypes m "fmtp", 0 ≤ p ∧ p < 2^31) :
    SectionFits codec m ↔ ∃ n, selectedPayload codec m = some n ∧
      (∀ p ∈ aptPayloads m n, p ∈ payloadTypes m "rtp") ∧
        ∃ x, ∀ p ∈ aptPayloads m n, p = n ∨ p = x := by
  have hint : ∀ {n}, selectedPayload codec m = some n → asInt n = n := fun hn =>
    have hrange := hrtp _ (mem_payloadTypes_of_selected hn)
    asInt_of_lt hrange.1 hrange.2
  constructor
  · rintro ⟨n,hn,rtx,_,hall⟩
    rw [hint hn] at hall
    have hkept := fun p hp => hall p ((mem_kept hfmtp).mpr (.inr hp))
    refine ⟨n,hn,fun p hp => (hkept p hp).1,rtx.getD n,fun p hp => (hkept p hp).2.imp_right ?_⟩
    intro hrtx
    rw [Option.mem_def.mp hrtx,Option.getD_some]
  · rintro ⟨n,hn,hmapped,x,hx⟩
    have hself := mem_payloadTypes_of_selected hn
    by_cases hmem : x ∈ aptPayloads m n
    · refine ⟨n,hn,some x,fun r hr => Option.some.inj hr ▸ hmem,fun p hp => ?_⟩
      rw [hint hn,mem_kept hfmtp] at hp
      cases hp with
      | inl hc => exact ⟨hc ▸ hself,.inl hc⟩
      | inr hapt => exact ⟨hmapped p hapt,(hx p hapt).imp_right fun h => congrArg some h.symm⟩
    · refine ⟨n,hn,none,(fun r hr => nomatch hr),fun p hp => ?_⟩
      rw [hint hn,mem_kept hfmtp] at hp
      cases hp with
      | inl hc => exact ⟨hc ▸ hself,.inl hc⟩
      | inr hapt =>
          refine ⟨hmapped p hapt,.inl ?_⟩
          cases hx p hapt with
          | inl hsame => exact hsame
          | inr hother => exact absurd (hother ▸ hapt) hmem

end Ylrtc.Signaling
