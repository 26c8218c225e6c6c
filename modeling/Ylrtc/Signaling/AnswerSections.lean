import Ylrtc.Signaling.SectionEdits

/-!
# The sections of an answer

What each media section of an offer becomes in the answer to the publisher: the lists of a
section are filtered one after the other, and the payload for retransmissions is found while
one of them is.
-/
namespace Ylrtc.Signaling
open Prog

/-! ### Sections of an offer -/

/-- The payload type of an item of a list. -/
def payload? (item : Value) : Option ℤ :=
  match item.find? "payload" with
  | some (.int n) => some n
  | _ => none

/-- The items of a list of a section. -/
def itemsOf (m : Value) (key : String) : List Value := ((m.find? key).map Value.elements).getD []

/-- The payload types of a list of a section. -/
def payloadTypes (m : Value) (key : String) : List ℤ := (itemsOf m key).filterMap payload?

def hasText (key : String) (t : Text) (item : Value) : Bool :=
  match item.find? key with
  | some v => v.isText t
  | none => false

/-- The payload of the first mapping to the codec. -/
def selectedPayload (codec : Text) (m : Value) : Option ℤ :=
  ((itemsOf m "rtp").find? (hasText "codec" codec)).bind payload?

/-- The item configures retransmissions of a payload. -/
def isApt (c : ℤ) (item : Value) : Bool := hasText "config" (text "apt="++decimal c) item

/-- The payloads for retransmissions of a payload. -/
def aptPayloads (m : Value) (c : ℤ) : List ℤ :=
  ((itemsOf m "fmtp").filter (isApt c)).filterMap payload?

/-- A number as an `int`. -/
def asInt (n : ℤ) : ℤ := (BitVec.ofInt 32 n).toInt

/-- The last of some payloads, -1 if there is none. -/
def lastPayload (r : ℤ) (payloads : List ℤ) : ℤ := payloads.foldl (fun _ n => asInt n) r

/-- The payload types of a list are numbers. -/
def Numbered (items : List Value) : Prop :=
  ∀ item ∈ items, ∀ p, item.find? "payload" = some p → ∃ n, p = .int n

namespace Editing
variable {parse : Text → Except Text Value} {write : Value → Except Text Text}

theorem payload?_congr {a b : Value} (h : a.find? "payload" = b.find? "payload") :
    payload? a = payload? b := by
  rw [payload?,h,payload?]

theorem payload?_of_at {item p : Value} {items : List Value} (hnum : Numbered (item::items))
    (h : item.at? "payload" = .ok p) : ∃ n, p = .int n ∧ payload? item = some n := by
  have hfind := Value.at?_eq_ok.mp h
  obtain ⟨n,rfl⟩ := hnum item List.mem_cons_self p hfind
  rw [payload?,hfind]
  exact ⟨n,rfl,rfl⟩

theorem hasText_of_at {key : String} {item v : Value} (h : item.at? key = .ok v) (t : Text) :
    hasText key t item = v.isText t := by
  rw [hasText,Value.at?_eq_ok.mp h]

/-- The predicate of `fmtp`. -/
def keepsFmtp (c : ℤ) (item : Value) : Bool := isApt c item || decide (payload? item = some c)

theorem keepFmtp_ok {c r : ℤ} {items : List (sdpJson parse write).Json} (hnum : Numbered items)
    {kept : List (sdpJson parse write).Json × ℤ} (h : keepFmtp c items r = .ok kept) :
    kept = (items.filter (keepsFmtp c),
      lastPayload r ((items.filter (isApt c)).filterMap payload?)) := by
  induction items generalizing r kept with
  | nil => exact (Except.ok.inj h).symm
  | cons item items ih =>
      have hrest : Numbered items := fun item hitem => hnum item (List.mem_cons_of_mem _ hitem)
      rw [keepFmtp] at h
      obtain ⟨config,hconfig,h⟩ := except_bind_eq_ok.mp h
      have hapt := hasText_of_at hconfig (text "apt="++decimal c)
      split at h
      · rename_i hmatch
        obtain ⟨p,hp,h⟩ := except_bind_eq_ok.mp h
        obtain ⟨payload,hpayload,h⟩ := except_bind_eq_ok.mp h
        obtain ⟨rest,hread,hpure⟩ := except_bind_eq_ok.mp h
        obtain ⟨n,rfl,hn⟩ := payload?_of_at hnum hp
        obtain rfl := Except.ok.inj hpayload
        have hkept := ih hrest hread
        obtain rfl := Except.ok.inj hpure
        have hisApt : isApt c item = true := hapt.trans hmatch
        rw [List.filter_cons_of_pos (by rw [keepsFmtp,hisApt,Bool.true_or]),
          List.filter_cons_of_pos hisApt,List.filterMap_cons_some hn,hkept]
        rfl
      · rename_i hmatch
        obtain ⟨p,hp,h⟩ := except_bind_eq_ok.mp h
        obtain ⟨rest,hread,hpure⟩ := except_bind_eq_ok.mp h
        obtain ⟨n,rfl,hn⟩ := payload?_of_at hnum hp
        have hkept := ih hrest hread
        obtain rfl := Except.ok.inj hpure
        have hisApt : ¬isApt c item = true := fun h => hmatch (hapt.symm.trans h)
        have hint : (sdpJson parse write).isInt (.int n) c = decide (n = c) := rfl
        rw [List.filter_cons_of_neg hisApt,hkept,hint]
        by_cases hsame : n = c
        · rw [List.filter_cons_of_pos (by simp [keepsFmtp,hn,hsame]),
            if_pos (decide_eq_true hsame)]
        · rw [List.filter_cons_of_neg (by simp [keepsFmtp,hisApt,hn,hsame]),
            if_neg (fun h => hsame (of_decide_eq_true h))]

theorem within_pushRtpmap (type : Text) (item : (sdpJson parse write).Json) :
    Within (Kept []) (pushRtpmap type item) :=
  within_modify fun _ => ⟨rfl,fun _ _ => rfl⟩

theorem selectCodec_ends (type codec : Text) {items : List (sdpJson parse write).Json}
    (hnum : Numbered items) (s : Editing (sdpJson parse write)) :
    Ends (fun c t => Kept [] s t ∧ (c = -1 ∨
        ∃ n, (items.find? (hasText "codec" codec)).bind payload? = some n ∧ c = asInt n))
      (selectCodec type codec items) s := by
  induction items with
  | nil =>
      rw [selectCodec,ends_pure]
      exact ⟨kept_refl s,.inl rfl⟩
  | cons item items ih =>
      rw [selectCodec,ends_bind,ends_lib]
      intro name hname
      have hcodec := hasText_of_at hname codec
      split
      · rename_i hmatch
        rw [ends_bind,ends_lib]
        intro payload hpayload
        obtain ⟨p,hp,hpayload⟩ := except_bind_eq_ok.mp hpayload
        obtain ⟨n,rfl,hn⟩ := payload?_of_at hnum hp
        obtain rfl := Except.ok.inj hpayload
        rw [ends_bind]
        refine ((within_pushRtpmap type item).ends s).mono ?_
        intro _ t hkept
        rw [ends_pure,List.find?_cons_of_pos (hcodec.trans hmatch)]
        exact ⟨hkept,.inr ⟨n,hn,rfl⟩⟩
      · rename_i hmatch
        rw [List.find?_cons_of_neg fun h => hmatch (hcodec.symm.trans h)]
        exact ih fun item hitem => hnum item (List.mem_cons_of_mem _ hitem)

/-- The predicate of `rtp`. -/
def keepsRtp (c r : ℤ) (item : Value) : Bool :=
  decide (r ≠ -1 ∧ payload? item = some r ∨ payload? item = some c)

theorem keepRtp_ends (type : Text) (c r : ℤ) {items : List (sdpJson parse write).Json}
    (hnum : Numbered items) (s : Editing (sdpJson parse write)) :
    Ends (fun kept t => Kept [] s t ∧ kept = items.filter (keepsRtp c r))
      (keepRtp type c r items) s := by
  induction items generalizing s with
  | nil =>
      rw [keepRtp,ends_pure]
      exact ⟨kept_refl s,rfl⟩
  | cons item items ih =>
      have hrest : Numbered items := fun item hitem => hnum item (List.mem_cons_of_mem _ hitem)
      rw [keepRtp,ends_bind,ends_lib]
      intro p hp
      obtain ⟨n,rfl,hn⟩ := payload?_of_at hnum hp
      have hint : ∀ m, (Value.int n).isInt m = decide (n = m) := fun _ => rfl
      simp only [hint,decide_eq_true_eq]
      split
      · rename_i hr
        rw [ends_bind]
        refine ((within_pushRtpmap type item).ends s).mono ?_
        intro _ t hkept
        rw [ends_bind]
        refine (ih hrest t).mono ?_
        rintro _ u ⟨hkept',rfl⟩
        rw [ends_pure,List.filter_cons_of_pos (by simp [keepsRtp,hn,hr])]
        exact ⟨kept_trans s t u hkept hkept',rfl⟩
      · rename_i hr
        rw [ends_bind]
        refine (ih hrest s).mono ?_
        rintro _ u ⟨hkept,rfl⟩
        rw [ends_pure]
        refine ⟨hkept,?_⟩
        by_cases hc : n = c
        · rw [if_pos hc,List.filter_cons_of_pos (by simp [keepsRtp,hn,hc])]
        · rw [if_neg hc,List.filter_cons_of_neg (by simpa [keepsRtp,hn,hc] using hr)]

theorem within_filterRtcpFb {key : String} (c : ℤ) : Within (Kept [key])
    (filterRtcpFb key c : Prog (Editing (sdpJson parse write)) (Exc _) Unit) := by
  refine within_hasKey.bind kept_trans fun there => ?_
  split
  · exact within_editMember List.mem_cons_self _
  · exact within_pure kept_refl _

theorem within_enableDtx (c : ℤ) (done items : List (sdpJson parse write).Json) :
    Within (Kept ["fmtp"]) (enableDtx c done items) := by
  induction items generalizing done with
  | nil => exact within_pure kept_refl _
  | cons item items ih =>
      rw [enableDtx]
      exact (within_lib _).bind kept_trans fun item' =>
        (within_editMember List.mem_cons_self _).bind kept_trans fun _ => ih _

/-- Only the configurations change. -/
theorem enableDtx_ends (c : ℤ) {done items current : List (sdpJson parse write).Json}
    {s : Editing (sdpJson parse write)}
    (hs : Value.find? s.mediaSection "fmtp" = some (.array current))
    (hcurrent : current.filterMap payload? = (done++items).filterMap payload?) :
    Ends (fun _ t => payloadTypes t.mediaSection "fmtp" = (done++items).filterMap payload?)
      (enableDtx c done items) s := by
  induction items generalizing done current s with
  | nil =>
      rw [enableDtx,ends_pure,payloadTypes,itemsOf,hs]
      exact hcurrent
  | cons item items ih =>
      rw [enableDtx,ends_bind,ends_lib]
      intro item' hitem
      rw [ends_bind]
      have hpayload : payload? item' = payload? item := by
        obtain ⟨p,hp,hitem⟩ := except_bind_eq_ok.mp hitem
        split at hitem
        · obtain ⟨config,hconfig,hitem⟩ := except_bind_eq_ok.mp hitem
          obtain ⟨v,hv,_⟩ := except_bind_eq_ok.mp hconfig
          obtain rfl := Except.ok.inj hitem
          exact payload?_congr ((Value.find?_putMember (Value.at?_eq_ok.mp hv) "payload").trans
            (if_neg (by decide)))
        · obtain rfl := Except.ok.inj hitem
          rfl
      refine (editMember_ends _ s).mono ?_
      rintro _ t ⟨_,member,member',hmember,hput,ht⟩
      obtain rfl := Option.some.inj (hs.symm.trans hmember)
      obtain rfl := Except.ok.inj hput
      have hsame : (done++item'::items).filterMap payload? =
          (done++item::items).filterMap payload? := by
        rw [List.filterMap_append,List.filterMap_append,List.filterMap_cons,List.filterMap_cons,
          hpayload]
      have hsplit : done++item'::items = (done++[item'])++items := by simp
      rw [← hsame,hsplit]
      exact ih ht (by rw [hsplit])

/-! ### A section of an answer -/

theorem itemsOf_congr {m m' : Value} {key : String} (h : m'.find? key = m.find? key) :
    itemsOf m' key = itemsOf m key := by
  rw [itemsOf,h,itemsOf]

theorem payloadTypes_congr {m m' : Value} {key : String} (h : m'.find? key = m.find? key) :
    payloadTypes m' key = payloadTypes m key := by
  rw [payloadTypes,itemsOf_congr h,payloadTypes]

theorem aptPayloads_congr {m m' : Value} {c : ℤ} (h : m'.find? "fmtp" = m.find? "fmtp") :
    aptPayloads m' c = aptPayloads m c := by
  rw [aptPayloads,itemsOf_congr h,aptPayloads]

theorem itemsOf_of_find? {m v : Value} {key : String} (h : m.find? key = some v) :
    itemsOf m key = v.elements := by
  rw [itemsOf,h]
  rfl

theorem find?_of_not_has {m : Value} {key : String}
    (h : ¬has (J := sdpJson parse write) m key = true) : m.find? key = none := by
  rw [has,Bool.not_eq_true,Option.isSome_eq_false_iff,Option.isNone_iff_eq_none] at h
  exact h

theorem itemsOf_of_not_has {m : Value} {key : String}
    (h : ¬has (J := sdpJson parse write) m key = true) : itemsOf m key = [] := by
  rw [itemsOf,find?_of_not_has h]
  rfl

/-- The payloads of a section, written out. -/
def payloadsText (c r : ℤ) : Text :=
  if r = -1 then decimal c else decimal c++text " "++decimal r

/-- What is left of a section for a payload of the codec. -/
structure Filtered (c : ℤ) (m m' : Value) : Prop where
  rtp : payloadTypes m' "rtp" = (payloadTypes m "rtp").filter fun p =>
    lastPayload (-1) (aptPayloads m c) ≠ -1 ∧ p = lastPayload (-1) (aptPayloads m c) ∨ p = c
  fmtp : ∀ p, p ∈ payloadTypes m' "fmtp" ↔
    p ∈ aptPayloads m c ∨ p = c ∧ c ∈ payloadTypes m "fmtp"
  payloads : m'.find? "payloads" =
    some (.string (payloadsText c (lastPayload (-1) (aptPayloads m c))))

theorem payloads_ends (c r : ℤ) (s : Editing (sdpJson parse write)) :
    Ends (fun _ t => Kept ["rtcpFb","rtcpFbTrrInt","payloads"] s t ∧
        Value.find? t.mediaSection "payloads" = some (.string (payloadsText c r)))
      (do
        filterRtcpFb "rtcpFb" c
        filterRtcpFb "rtcpFbTrrInt" c
        assign "payloads" (.string (payloadsText c r))
        pure true : Prog (Editing (sdpJson parse write)) (Exc _) Bool) s := by
  rw [ends_bind]
  refine ((within_filterRtcpFb c).ends s).mono fun _ t ht => ?_
  rw [ends_bind]
  refine ((within_filterRtcpFb c).ends t).mono fun _ u hu => ?_
  rw [ends_bind]
  refine (assign_ends _ u).mono ?_
  rintro _ v ⟨hv,hpayloads⟩
  rw [ends_pure]
  refine ⟨?_,hpayloads⟩
  exact kept_trans s t v (ht.mono (by simp))
    (kept_trans t u v (hu.mono (by simp)) (hv.mono (by simp)))

theorem filterMap_filter_keepsRtp (c r : ℤ) (items : List Value) :
    (items.filter (keepsRtp c r)).filterMap payload? =
      (items.filterMap payload?).filter fun p => r ≠ -1 ∧ p = r ∨ p = c := by
  induction items with
  | nil => rfl
  | cons item items ih =>
      rw [List.filter_cons,List.filterMap_cons]
      cases hn : payload? item with
      | none =>
          have hnot : keepsRtp c r item = false := by simp [keepsRtp,hn]
          simp only [hnot,Bool.false_eq_true,if_false,ih]
      | some n =>
          have hkeeps : keepsRtp c r item = decide (r ≠ -1 ∧ n = r ∨ n = c) := by
            simp [keepsRtp,hn]
          rw [List.filter_cons,hkeeps]
          split
          · rw [List.filterMap_cons_some hn,ih]
          · exact ih

/-- The list of mappings is filtered. -/
theorem rtp_ends {Q : Bool → Editing (sdpJson parse write) → Prop} (type : Text) (c r : ℤ)
    {s : Editing (sdpJson parse write)} (hnum : Numbered (itemsOf s.mediaSection "rtp"))
    {rest : Unit → Prog (Editing (sdpJson parse write)) (Exc _) Bool}
    (hrest : ∀ t, Kept ["rtp"] s t → payloadTypes t.mediaSection "rtp" =
        (payloadTypes s.mediaSection "rtp").filter (fun p => r ≠ -1 ∧ p = r ∨ p = c) →
      Ends Q (rest ()) t) :
    Ends Q (do
      let rtp ← read fun m => (sdpJson parse write).atKey m "rtp"
      let kept ← keepRtp type c r ((sdpJson parse write).elements rtp)
      let x ← editMember "rtp" fun rtp => (sdpJson parse write).retain rtp kept
      rest x) s := by
  rw [ends_bind,ends_read]
  intro rtp hrtp
  have hfind := Value.at?_eq_ok.mp hrtp
  have hitems := itemsOf_of_find? hfind
  rw [hitems] at hnum
  rw [ends_bind]
  refine (keepRtp_ends type c r hnum s).mono ?_
  rintro _ t ⟨hst,rfl⟩
  rw [ends_bind]
  refine (editMember_ends _ t).mono ?_
  rintro _ u ⟨htu,member,member',hmember,hretain,hu⟩
  refine hrest u (kept_trans s t u (hst.mono (by simp)) htu) ?_
  rw [hst.2 "rtp" (by simp),hfind] at hmember
  obtain rfl := Option.some.inj hmember
  cases rtp with
  | array items =>
      obtain rfl := Except.ok.inj hretain
      rw [payloadTypes,itemsOf_of_find? hu,payloadTypes,hitems]
      exact filterMap_filter_keepsRtp c r items
  | null | bool | int | string | object => nomatch hretain

theorem mem_filter_keepsFmtp (c p : ℤ) (items : List Value) :
    p ∈ (items.filter (keepsFmtp c)).filterMap payload? ↔
      p ∈ (items.filter (isApt c)).filterMap payload? ∨ p = c ∧ c ∈ items.filterMap payload? := by
  simp only [List.mem_filterMap,List.mem_filter,keepsFmtp,Bool.or_eq_true,decide_eq_true_eq]
  constructor
  · rintro ⟨item,⟨hmem,hkeeps⟩,hp⟩
    cases hkeeps with
    | inl hapt => exact .inl ⟨item,⟨hmem,hapt⟩,hp⟩
    | inr hc => exact .inr ⟨Option.some.inj (hp.symm.trans hc),item,hmem,hc⟩
  · rintro (⟨item,⟨hmem,hapt⟩,hp⟩ | ⟨rfl,item,hmem,hp⟩)
    · exact ⟨item,⟨hmem,.inl hapt⟩,hp⟩
    · exact ⟨item,⟨hmem,.inr hp⟩,hp⟩

theorem mem_payloadTypes_of_filter {c : ℤ} {m m' : Value} {items : List Value}
    (hitems : itemsOf m "fmtp" = items)
    (h : payloadTypes m' "fmtp" = (items.filter (keepsFmtp c)).filterMap payload?) (p : ℤ) :
    p ∈ payloadTypes m' "fmtp" ↔ p ∈ aptPayloads m c ∨ p = c ∧ c ∈ payloadTypes m "fmtp" := by
  rw [h,mem_filter_keepsFmtp,aptPayloads,payloadTypes,hitems]

/-- The list of configurations is filtered; DTX does not change its payload types. -/
theorem fmtp_ends {Q : Bool → Editing (sdpJson parse write) → Prop} (c : ℤ) (dtx : Prop)
    [Decidable dtx] {s : Editing (sdpJson parse write)}
    (hnum : Numbered (itemsOf s.mediaSection "fmtp"))
    {rest : ℤ → Prog (Editing (sdpJson parse write)) (Exc _) Bool}
    (hrest : ∀ t, Kept ["fmtp"] s t → (∀ p, p ∈ payloadTypes t.mediaSection "fmtp" ↔
        p ∈ aptPayloads s.mediaSection c ∨ p = c ∧ c ∈ payloadTypes s.mediaSection "fmtp") →
      Ends Q (rest (lastPayload (-1) (aptPayloads s.mediaSection c))) t) :
    Ends Q (do
      let fmtp ← read fun m => (sdpJson parse write).atKey m "fmtp"
      let kept ← lib (keepFmtp c ((sdpJson parse write).elements fmtp) (-1))
      editMember "fmtp" fun fmtp => (sdpJson parse write).retain fmtp kept.1
      if dtx then
        let fmtp ← read fun m => (sdpJson parse write).atKey m "fmtp"
        enableDtx c [] ((sdpJson parse write).elements fmtp)
        let r ← pure kept.2
        rest r
      else
        let r ← pure kept.2
        rest r) s := by
  rw [ends_bind,ends_read]
  intro fmtp hfmtp
  have hfind := Value.at?_eq_ok.mp hfmtp
  have hitems := itemsOf_of_find? hfind
  rw [hitems] at hnum
  rw [ends_bind,ends_lib]
  intro kept hkept
  obtain rfl := keepFmtp_ok hnum hkept
  rw [ends_bind]
  refine (editMember_ends _ s).mono ?_
  rintro _ t ⟨hst,member,member',hmember,hretain,ht⟩
  obtain rfl := Option.some.inj (hfind.symm.trans hmember)
  cases fmtp with
  | array items =>
      obtain rfl := Except.ok.inj hretain
      have hlast : lastPayload (-1) ((items.filter (isApt c)).filterMap payload?) =
          lastPayload (-1) (aptPayloads s.mediaSection c) := by
        rw [aptPayloads,hitems]
        rfl
      split
      · rw [ends_bind,ends_read]
        intro fmtp' hfmtp'
        have hfind' := Value.at?_eq_ok.mp hfmtp'
        obtain rfl := Option.some.inj (ht.symm.trans hfind')
        rw [ends_bind]
        refine (((within_enableDtx c [] _).ends t).and (enableDtx_ends c ht rfl)).mono ?_
        rintro _ u ⟨htu,hu⟩
        rw [ends_bind,ends_pure]
        have h := hrest u (kept_trans s t u hst htu) (mem_payloadTypes_of_filter hitems hu)
        rw [← hlast] at h
        exact h
      · rw [ends_bind,ends_pure]
        have htypes : payloadTypes t.mediaSection "fmtp" =
            (items.filter (keepsFmtp c)).filterMap payload? := by
          rw [payloadTypes,itemsOf_of_find? ht]
          rfl
        have h := hrest t hst (mem_payloadTypes_of_filter hitems htypes)
        rw [← hlast] at h
        exact h
  | null | bool | int | string | object => nomatch hretain

/-- The payload of the codec, as the answer has it. -/
def Chosen (codec : Text) (m : Value) (c : ℤ) : Prop :=
  (m.find? "rtp" = none ∧ c = -1) ∨ ∃ n, selectedPayload codec m = some n ∧ c = asInt n ∧ c ≠ -1

/-- All that an answer changes in a section. -/
def answeredKeys : List String :=
  preparedKeys++["rtp","fmtp","rtcpFb","rtcpFbTrrInt","payloads"]

/-- What a section of an offer becomes in the answer. -/
def Answered (m m' : Value) : Prop :=
  (∀ k ∉ answeredKeys, m'.find? k = m.find? k) ∧ ∃ type, m.find? "type" = some (.string type) ∧
    ∀ codec, codecOf type = some codec → ∃ c, Chosen codec m c ∧ Filtered c m m'

/-- What is done before the codec is selected does not matter. -/
theorem Answered.of_prepared {m m₁ m' : Value} (h : Answered m₁ m')
    (hkept : ∀ k ∉ preparedKeys, m₁.find? k = m.find? k) : Answered m m' := by
  obtain ⟨hframe,type,htype,hcodec⟩ := h
  have hrtp := hkept "rtp" (by decide)
  have hfmtp := hkept "fmtp" (by decide)
  refine ⟨fun k hk => ?_,type,(hkept "type" (by decide)).symm.trans htype,fun codec hc => ?_⟩
  · exact (hframe k hk).trans (hkept k fun hmem => hk (List.mem_append_left _ hmem))
  · obtain ⟨c,hchosen,hfiltered⟩ := hcodec codec hc
    refine ⟨c,?_,?_,?_,?_⟩
    · rw [Chosen,hrtp,selectedPayload,itemsOf_congr hrtp] at hchosen
      exact hchosen
    · rw [hfiltered.rtp,payloadTypes_congr hrtp,aptPayloads_congr hfmtp]
    · intro p
      rw [hfiltered.fmtp,payloadTypes_congr hfmtp,aptPayloads_congr hfmtp]
    · rw [hfiltered.payloads,aptPayloads_congr hfmtp]

/-- The payload types of a section are numbers. -/
def NumberedSection (m : Value) : Prop :=
  Numbered (itemsOf m "rtp") ∧ Numbered (itemsOf m "fmtp")

theorem NumberedSection.of_prepared {m m₁ : Value} (h : NumberedSection m)
    (hkept : ∀ k ∉ preparedKeys, m₁.find? k = m.find? k) : NumberedSection m₁ := by
  rw [NumberedSection,itemsOf_congr (hkept "rtp" (by decide)),
    itemsOf_congr (hkept "fmtp" (by decide))]
  exact h

/-- A section is edited into what the answer has, and the rest of the answer is left alone. -/
def AnswersTo (s : Editing (sdpJson parse write)) (b : Bool) (t : Editing (sdpJson parse write)) :
    Prop :=
  t.negotiator.publishAnwserSdp = s.negotiator.publishAnwserSdp ∧
    (b = true → Answered s.mediaSection t.mediaSection)

/-- The preparation of a section and what makes it an answer are one after the other. -/
theorem AnswersTo.of_prepared {s t : Editing (sdpJson parse write)} (h : Kept preparedKeys s t)
    {b : Bool} {u : Editing (sdpJson parse write)} (hu : AnswersTo t b u) : AnswersTo s b u :=
  ⟨hu.1.trans h.1,fun hb => (hu.2 hb).of_prepared h.2⟩

theorem aptPayloads_of_not_has {m : Value} (h : ¬has (J := sdpJson parse write) m "fmtp" = true)
    (c : ℤ) : aptPayloads m c = [] := by
  rw [aptPayloads,itemsOf_of_not_has h]
  rfl

theorem mem_payloadTypes_of_not_has {m : Value}
    (h : ¬has (J := sdpJson parse write) m "fmtp" = true) (c p : ℤ) :
    p ∈ payloadTypes m "fmtp" ↔ p ∈ aptPayloads m c ∨ p = c ∧ c ∈ payloadTypes m "fmtp" := by
  rw [aptPayloads_of_not_has h,payloadTypes,itemsOf_of_not_has h]
  simp

theorem chosen_of_selected {codec : Text} {m rtp : Value} {c : ℤ} (hrtp : m.find? "rtp" = some rtp)
    (hc : c = -1 ∨
      ∃ n, (rtp.elements.find? (hasText "codec" codec)).bind payload? = some n ∧ c = asInt n)
    (hne : c ≠ -1) : Chosen codec m c := by
  cases hc with
  | inl hminus => exact absurd hminus hne
  | inr hsome =>
      obtain ⟨n,hn,rfl⟩ := hsome
      refine .inr ⟨n,?_,rfl,hne⟩
      rw [selectedPayload,itemsOf_of_find? hrtp]
      exact hn

/-- What is left of a section behind the codec, if nothing else changed `rtp` and `fmtp`. -/
structure Trimmed (c : ℤ) (s t : Editing (sdpJson parse write)) : Prop where
  kept : Kept ["rtp","fmtp"] s t
  rtp : payloadTypes t.mediaSection "rtp" = (payloadTypes s.mediaSection "rtp").filter fun p =>
    lastPayload (-1) (aptPayloads s.mediaSection c) ≠ -1 ∧
      p = lastPayload (-1) (aptPayloads s.mediaSection c) ∨ p = c
  fmtp : ∀ p, p ∈ payloadTypes t.mediaSection "fmtp" ↔
    p ∈ aptPayloads s.mediaSection c ∨ p = c ∧ c ∈ payloadTypes s.mediaSection "fmtp"

/-- The lists of feedback and the payloads come last. -/
theorem Trimmed.finish {c : ℤ} {codec type : Text} {s t : Editing (sdpJson parse write)}
    (h : Trimmed c s t) (htype : s.mediaSection.find? "type" = some (.string type))
    (hcodec : codecOf type = some codec) (hc : Chosen codec s.mediaSection c) :
    Ends (AnswersTo s) (do
      filterRtcpFb "rtcpFb" c
      filterRtcpFb "rtcpFbTrrInt" c
      assign "payloads" (.string (payloadsText c (lastPayload (-1) (aptPayloads s.mediaSection c))))
      pure true : Prog (Editing (sdpJson parse write)) (Exc _) Bool) t := by
  refine (payloads_ends c _ t).mono fun b u hu => ?_
  have hkept : Kept answeredKeys s u :=
    kept_trans s t u (h.kept.mono (by decide)) (hu.1.mono (by decide))
  refine ⟨hkept.1,fun _ => ⟨hkept.2,type,htype,?_⟩⟩
  intro codec' hcodec'
  obtain rfl := Option.some.inj (hcodec.symm.trans hcodec')
  refine ⟨c,hc,?_,?_,hu.2⟩
  · rw [payloadTypes_congr (hu.1.2 "rtp" (by decide)),h.rtp]
  · rw [payloadTypes_congr (hu.1.2 "fmtp" (by decide))]
    exact h.fmtp

theorem finishPublish_ends (dtx : Bool) {s : Editing (sdpJson parse write)}
    (hnum : NumberedSection s.mediaSection) : Ends (AnswersTo s) (finishPublish dtx) s := by
  unfold finishPublish
  rw [ends_bind]
  refine ((within_assignRids _).ends s).mono fun _ s₁ h₁ => ?_
  rw [ends_bind]
  refine ((within_assignSimulcast _).ends s₁).mono fun _ s₂ h₂ => ?_
  have hs₂ := kept_trans s s₁ s₂ h₁ h₂
  refine Ends.mono (Q := AnswersTo s₂) ?_ fun b t h => h.of_prepared hs₂
  obtain ⟨hrtp,hfmtp⟩ := hnum.of_prepared hs₂.2
  rw [ends_bind,ends_read]
  intro type htype
  obtain ⟨v,hv,htype⟩ := except_bind_eq_ok.mp htype
  obtain rfl := Value.toText_eq_ok.mp htype
  have htypeOf := Value.at?_eq_ok.mp hv
  split
  · rename_i hcodec
    rw [ends_pure]
    refine ⟨rfl,fun _ => ⟨fun _ _ => rfl,type,htypeOf,?_⟩⟩
    intro codec hsome
    exact absurd (hcodec.symm.trans hsome) (by simp)
  · rename_i codec hcodec
    rw [ends_bind,ends_hasKey]
    extract_lets select
    have hselect : ∀ c t, Kept [] s₂ t →
        (¬(has s₂.mediaSection "rtp" = true ∧ c = -1) → Chosen codec s₂.mediaSection c) →
        Ends (AnswersTo s₂) (select c) t := by
      intro c t hst hchosen
      have hrtpt := hst.2 "rtp" (by simp)
      have hfmtpt := hst.2 "fmtp" (by simp)
      unfold select
      split
      · rw [ends_pure]
        exact ⟨hst.1,fun h => nomatch h⟩
      · rename_i hnot
        have hc := hchosen hnot
        rw [ends_bind,ends_hasKey]
        extract_lets filter
        have hfilter : ∀ u, Kept ["fmtp"] t u → (∀ p, p ∈ payloadTypes u.mediaSection "fmtp" ↔
            p ∈ aptPayloads t.mediaSection c ∨ p = c ∧ c ∈ payloadTypes t.mediaSection "fmtp") →
            Ends (AnswersTo s₂) (filter (lastPayload (-1) (aptPayloads t.mediaSection c))) u := by
          intro u htu hkeptFmtp
          have hrtpu := (htu.2 "rtp" (by decide)).trans hrtpt
          rw [aptPayloads_congr hfmtpt,payloadTypes_congr hfmtpt] at hkeptFmtp
          rw [aptPayloads_congr hfmtpt]
          unfold filter
          extract_lets finish
          have hfinish : ∀ v, Kept ["rtp"] u v → payloadTypes v.mediaSection "rtp" =
              (payloadTypes u.mediaSection "rtp").filter (fun p =>
                lastPayload (-1) (aptPayloads s₂.mediaSection c) ≠ -1 ∧
                  p = lastPayload (-1) (aptPayloads s₂.mediaSection c) ∨ p = c) →
              Ends (AnswersTo s₂) (finish ()) v := by
            intro v huv hkeptRtp
            have htrimmed : Trimmed c s₂ v := by
              constructor
              case kept =>
                exact kept_trans s₂ t v (hst.mono (by decide)) <|
                  kept_trans t u v (htu.mono (by decide)) (huv.mono (by decide))
              case rtp => rw [hkeptRtp,payloadTypes_congr hrtpu]
              case fmtp =>
                rw [payloadTypes_congr (huv.2 "fmtp" (by decide))]
                exact hkeptFmtp
            exact htrimmed.finish htypeOf hcodec hc
          split
          · exact rtp_ends type c _ (by rw [itemsOf_congr hrtpu]; exact hrtp) hfinish
          · rename_i hno
            apply hfinish u (kept_refl u)
            rw [payloadTypes_congr hrtpu,payloadTypes,itemsOf_of_not_has hno]
            rfl
        split
        · exact fmtp_ends c (dtx = true ∧ codec = text "opus")
            (by rw [itemsOf_congr hfmtpt]; exact hfmtp) hfilter
        · rename_i hno
          have hnone := hfilter t (kept_refl t) (mem_payloadTypes_of_not_has hno c)
          rw [aptPayloads_of_not_has hno] at hnone
          rw [ends_bind,ends_pure]
          exact hnone
    split
    · rename_i hhas
      rw [ends_bind,ends_read]
      intro rtp hread
      have hfind := Value.at?_eq_ok.mp hread
      rw [itemsOf_of_find? hfind] at hrtp
      rw [ends_bind]
      refine (selectCodec_ends type codec hrtp s₂).mono fun c t hc => ?_
      apply hselect c t hc.1
      intro hnot
      exact chosen_of_selected hfind hc.2 fun hminus => hnot ⟨hhas,hminus⟩
    · rename_i hno
      rw [ends_bind,ends_pure]
      exact hselect (-1) s₂ (kept_refl s₂) fun _ => .inl ⟨find?_of_not_has hno,rfl⟩

theorem editSection_ends (dtx : Bool) (remoteDtlsSetup : Text)
    {s : Editing (sdpJson parse write)} (hnum : NumberedSection s.mediaSection) :
    Ends (AnswersTo s) (editSection preparePublish remoteDtlsSetup (finishPublish dtx)) s := by
  rw [editSection,ends_bind,ends_safe]
  refine (within_preparePublish.ends s).mono fun _ t hst => ?_
  rw [ends_bind]
  refine ((within_assignSetup _).ends t).mono fun _ u htu => ?_
  have hsu := kept_trans s t u hst htu
  rw [ends_safe]
  exact (finishPublish_ends dtx (hnum.of_prepared hsu.2)).mono fun b v h => h.of_prepared hsu

end Editing

/-! ### All sections -/

namespace SdpNegotiator
open Editing
variable {parse : Text → Except Text Value} {write : Value → Except Text Text}

/-- Some sections are still as in the offer, the others are answered. -/
def Pending (offered : List Value) (is : List ℕ) (sections : List Value) : Prop :=
  ∀ i, (i ∈ is → sections[i]? = offered[i]?) ∧
    (i ∉ is → Option.Rel Answered offered[i]? sections[i]?)

theorem Pending.set {offered sections : List Value} {i : ℕ} {is : List ℕ} {m m' : Value}
    (h : Pending offered (i::is) sections) (hi : i ∉ is) (hm : sections[i]? = some m)
    (ha : Answered m m') : Pending offered is (sections.set i m') := by
  intro j
  have hlength : i < sections.length := (List.getElem?_eq_some_iff.mp hm).1
  by_cases hj : j = i
  · subst hj
    constructor
    · exact fun hmem => absurd hmem hi
    · intro _
      rw [← (h j).1 List.mem_cons_self,hm,List.getElem?_set_self hlength]
      exact .some ha
  · rw [List.getElem?_set_ne (Ne.symm hj)]
    constructor
    · exact fun hmem => (h j).1 (List.mem_cons_of_mem _ hmem)
    · intro hmem
      apply (h j).2
      rw [List.mem_cons,not_or]
      exact ⟨hj,hmem⟩

theorem Pending.forall₂ {offered sections : List Value} (h : Pending offered [] sections) :
    List.Forall₂ Answered offered sections := by
  have hall : ∀ i, Option.Rel Answered offered[i]? sections[i]? := fun i => (h i).2 List.not_mem_nil
  clear h
  induction offered generalizing sections with
  | nil =>
      cases sections with
      | nil => exact .nil
      | cons m' sections => nomatch hall 0
  | cons m offered ih =>
      cases sections with
      | nil => nomatch hall 0
      | cons m' sections =>
          cases hall 0 with
          | some ha => exact .cons ha (ih fun i => hall (i+1))

theorem inSection_ends (dtx : Bool) (remoteDtlsSetup : Text) {offered : List Value} {i : ℕ}
    {is : List ℕ} (hi : i ∉ is) (hlt : i < offered.length)
    (hnum : ∀ m ∈ offered, NumberedSection m) {n : SdpNegotiator (sdpJson parse write)}
    (hn : Pending offered (i::is) (itemsOf n.publishAnwserSdp "media")) :
    Ends (fun b n' => b = true → Pending offered is (itemsOf n'.publishAnwserSdp "media"))
      (inSection publishAnwserSdp putPublishAnwser
        (editSection preparePublish remoteDtlsSetup (finishPublish dtx)) i) n := by
  unfold inSection
  rw [ends_get_bind,ends_bind,ends_safe,ends_lib]
  intro media hmedia
  have hfind := Value.at?_eq_ok.mp hmedia
  rw [ends_bind,ends_safe,ends_lib]
  intro m hm
  cases media with
  | array sections =>
      have hitems : itemsOf n.publishAnwserSdp "media" = sections := itemsOf_of_find? hfind
      rw [hitems] at hn
      have hsame := (hn i).1 List.mem_cons_self
      rw [List.getElem?_eq_getElem hlt] at hsame
      have hindex : Value.index (.array sections) i = .ok offered[i] := by
        rw [Value.index,hsame]
      obtain rfl := Except.ok.inj (hindex.symm.trans hm)
      rw [ends_zoom]
      refine (editSection_ends dtx remoteDtlsSetup
        (hnum _ (List.getElem_mem hlt))).mono fun b e he hb => ?_
      have hput : Value.find? (Value.putMember e.negotiator.publishAnwserSdp "media"
          (.array (sections.set i e.mediaSection))) "media" =
          some (.array (sections.set i e.mediaSection)) := by
        rw [he.1]
        exact (Value.find?_putMember hfind "media").trans (if_pos rfl)
      change Pending offered is (itemsOf (Value.putMember e.negotiator.publishAnwserSdp "media"
        (.array (sections.set i e.mediaSection))) "media")
      rw [itemsOf_of_find? hput]
      exact hn.set hi hsame (he.2 hb)
  | null | bool | int | string | object => nomatch hm

/-- Each section is answered where it stands. -/
theorem sections_ends (dtx : Bool) (remoteDtlsSetup : Text) {offered : List Value} {is : List ℕ}
    (hnodup : is.Nodup) (hlt : ∀ i ∈ is, i < offered.length)
    (hnum : ∀ m ∈ offered, NumberedSection m) {n : SdpNegotiator (sdpJson parse write)}
    (hn : Pending offered is (itemsOf n.publishAnwserSdp "media")) :
    Ends (fun b n' => b = true → Pending offered [] (itemsOf n'.publishAnwserSdp "media"))
      (whileItems (inSection publishAnwserSdp putPublishAnwser
        (editSection preparePublish remoteDtlsSetup (finishPublish dtx))) is) n := by
  induction is generalizing n with
  | nil =>
      change Ends _ (pure true) n
      rw [ends_pure]
      exact fun _ => hn
  | cons i is ih =>
      obtain ⟨hi,hrest⟩ := List.nodup_cons.mp hnodup
      rw [whileItems,ends_bind]
      refine (inSection_ends dtx remoteDtlsSetup hi (hlt i List.mem_cons_self) hnum hn).mono ?_
      intro go n' hgo
      split
      · rename_i htrue
        exact ih hrest (fun j hj => hlt j (List.mem_cons_of_mem _ hj)) (hgo htrue)
      · change Ends _ (pure false) n'
        rw [ends_pure]
        exact fun h => absurd h Bool.false_ne_true

theorem eraseFromAnwser_ends {key : String} (hkey : "media" ≠ key)
    (n : SdpNegotiator (sdpJson parse write)) :
    Ends (fun _ n' => Value.find? n'.publishAnwserSdp "media" =
        Value.find? n.publishAnwserSdp "media") (eraseFromAnwser key) n := by
  unfold eraseFromAnwser
  rw [ends_get_bind,ends_bind,ends_lib]
  intro sdp hsdp
  rw [ends_modify]
  exact (Value.find?_of_erase hsdp "media").trans (if_neg hkey)

theorem beginPublishAnswer_ends (n : SdpNegotiator (sdpJson parse write)) :
    Ends (fun media n' => Value.find? n.publishOfferSdp "media" = some media ∧
        Value.find? n'.publishAnwserSdp "media" = some media) beginPublishAnswer n := by
  unfold beginPublishAnswer
  rw [ends_bind,ends_modify,ends_bind]
  refine (eraseFromAnwser_ends (by decide) _).mono fun _ n₁ h₁ => ?_
  rw [ends_bind]
  refine (eraseFromAnwser_ends (by decide) _).mono fun _ n₂ h₂ => ?_
  rw [ends_bind]
  refine (eraseFromAnwser_ends (by decide) _).mono fun _ n₃ h₃ => ?_
  rw [ends_bind]
  refine (eraseFromAnwser_ends (by decide) _).mono fun _ n₄ h₄ => ?_
  rw [ends_get_bind,ends_lib]
  intro media hmedia
  have hfind := Value.at?_eq_ok.mp hmedia
  exact ⟨((h₄.trans h₃).trans (h₂.trans h₁)).symm.trans hfind,hfind⟩

/-- The sections of the answer are those of the offer, each one answered. -/
theorem createPublishAnswer_ends (dtx : Bool) {n : SdpNegotiator (sdpJson parse write)}
    (hnum : ∀ m ∈ itemsOf n.publishOfferSdp "media", NumberedSection m) :
    Ends (fun answer n' => ∀ t, answer = some t → write n'.publishAnwserSdp = .ok t ∧
        List.Forall₂ Answered (itemsOf n.publishOfferSdp "media")
          (itemsOf n'.publishAnwserSdp "media")) (createPublishAnswer dtx) n := by
  unfold createPublishAnswer
  rw [ends_get_bind,ends_bind,ends_safe]
  refine (beginPublishAnswer_ends n).mono fun media n₁ h₁ => ?_
  have hoffered := itemsOf_of_find? h₁.1
  have hanswered := itemsOf_of_find? h₁.2
  rw [ends_bind]
  refine (sections_ends dtx n.remoteDtlsSetup List.nodup_range (fun i hi => ?_) hnum ?_).mono ?_
  · rw [hoffered]
    exact List.mem_range.mp hi
  · rw [hoffered,hanswered]
    intro i
    constructor
    · exact fun _ => rfl
    · intro hi
      have hlength : media.elements.length ≤ i := Nat.le_of_not_lt fun h => hi (List.mem_range.mpr h)
      rw [List.getElem?_eq_none hlength]
      exact .none
  · intro complete n₂ hcomplete
    split
    · rename_i htrue
      rw [ends_get_bind,ends_bind,ends_safe,ends_lib]
      intro answer hwrite
      rw [ends_pure]
      rintro _ ⟨⟩
      exact ⟨hwrite,(hcomplete htrue).forall₂⟩
    · rw [ends_pure]
      exact fun t h => nomatch h

end SdpNegotiator

end Ylrtc.Signaling
