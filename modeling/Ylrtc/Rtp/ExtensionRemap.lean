import Ylrtc.Rtp.PacketLayout

/-!
# The extensions of a subscriber's copy

The copy constructor leaves `extension_capability_` behind, so that
`UpdateExtensionCapability` on a copy finds no entry to rewrite and only puts the new
table in place. What the subscriber reads are the publisher's elements under its own ids.
-/
namespace Ylrtc.Packet
open ByteBuffer CursorParser HeaderExtension

/-- `RtpMidExtension::Parse`. -/
def parseMid (data : List Byte) (size : Byte) : Option (List Byte) :=
  if size = 0 || data.getD 0 0 = 0 then none else some (data.take size.toNat)

def midExtension : Extension (List Byte) := ⟨.mid,parseMid⟩

/-- The extension classes, the only arguments `GetExtensionValue` has. -/
inductive ExtensionClass : {α : Type} → Extension α → Prop
  | mid : ExtensionClass midExtension
  | rtpStreamId : ExtensionClass rtpStreamIdExtension
  | repairedRtpStreamId : ExtensionClass repairedRtpStreamIdExtension
  | transportSequenceNumber : ExtensionClass transportSequenceNumberExtension

/-- What `RtpHeaderExtensionCapability` holds after a negotiation. -/
structure Negotiated (c : RtpHeaderExtensionCapability) : Prop where
  injective : ∀ type type' id, c.getTypeId type = some id → c.getTypeId type' = some id →
    type = type'
  range : ∀ type id, c.getTypeId type = some id → 1 ≤ id ∧ id ≤ 14

/-- Every type of one table is in the other. -/
def Registers (c newCapability : RtpHeaderExtensionCapability) : Prop :=
  ∀ type, c.getTypeId type ≠ none → newCapability.getTypeId type ≠ none

/-- The classes whose value `atoi` reads, which is not told where the element ends. -/
inductive ReadByAtoi : {α : Type} → Extension α → Prop
  | rtpStreamId : ReadByAtoi rtpStreamIdExtension
  | repairedRtpStreamId : ReadByAtoi repairedRtpStreamIdExtension

/-- What `atoi` reads goes on to the end of the bytes. -/
def runsOut (data : List Byte) : Bool :=
  match data.dropWhile isSpace with
  | 45::rest => rest.all isDigit
  | 43::rest => rest.all isDigit
  | rest => rest.all isDigit

namespace RtpPacket

/-- The element that has an id. -/
def element (p : RtpPacket) (id : ℤ) : Option ExtensionInfo :=
  p.extensionEntries.find? fun extension => extension.id.toNat = id

/-- What `Parse` of an extension class makes of the element with an id, if there is one. -/
def reading {α : Type} (p : RtpPacket) (behind : List Byte) (extension : Extension α) (id : ℤ) :
    Option α :=
  (p.element id).bind fun e =>
    extension.parse ((p.data ++ behind).drop e.offset.toNat) e.length

/-- No class reads on behind the packet at the element with an id. -/
def EndsInside {α : Type} (p : RtpPacket) (extension : Extension α) (id : ℤ) : Prop :=
  ReadByAtoi extension → ∀ e ∈ p.element id, runsOut (p.data.drop e.offset.toNat) = false

/-- The copy a subscriber gets of a packet, under the subscriber's ids, somewhere in memory. -/
def copyFor (p : RtpPacket) (newCapability : RtpHeaderExtensionCapability)
    (behind : List Byte) : RtpPacket :=
  (p.copy behind).updateExtensionCapability newCapability

/-- What the remapping is for: under the new ids the copy has the values of the packet, and its
bytes have the elements of the copy. -/
structure Remaps (p : RtpPacket) (newCapability : RtpHeaderExtensionCapability)
    (behind : List Byte) : Prop where
  values : ∀ {α : Type} (extension : Extension α), ExtensionClass extension →
    p.extensionCapability.getTypeId extension.kType ≠ none →
      (p.copyFor newCapability behind).getExtensionValue extension = p.getExtensionValue extension
  reparsed : ∃ r, create (p.copyFor newCapability behind).data behind = some r ∧
    r.extensionEntries = (p.copyFor newCapability behind).extensionEntries

theorem getExtensionValue_eq {α : Type} (p : RtpPacket) (extension : Extension α) :
    p.getExtensionValue extension =
      (p.extensionCapability.getTypeId extension.kType).bind (p.reading p.behind extension) := by
  rw [getExtensionValue,findExtension]
  cases p.extensionCapability.getTypeId extension.kType with
  | none => rfl
  | some id =>
      rw [Option.bind_some,reading,element]
      simp only
      cases p.extensionEntries.find? fun extension => extension.id.toNat = id with
      | none => rfl
      | some e => rfl

end RtpPacket

/-! ### Readings that the memory behind does not reach -/

theorem digits_append_of_not_all {data : List Byte} (h : data.all isDigit = false)
    (behind : List Byte) : digits (data ++ behind) = digits data := by
  have hwhile : (data ++ behind).takeWhile isDigit = data.takeWhile isDigit := by
    induction data with
    | nil => simp at h
    | cons b data ih =>
        rw [List.all_cons,Bool.and_eq_false_iff] at h
        rw [List.cons_append,List.takeWhile_cons,List.takeWhile_cons]
        by_cases hb : isDigit b = true
        · have hrest := h.resolve_left (by rw [hb]; simp)
          rw [if_pos hb,if_pos hb,ih hrest]
        · rw [if_neg hb,if_neg hb]
  rw [digits,digits,hwhile]

theorem atoi_of_unsigned {data rest : List Byte} {b : Byte}
    (h : data.dropWhile isSpace = b::rest) (hminus : b ≠ 45) (hplus : b ≠ 43) :
    atoi data = digits (b::rest) := by
  rw [atoi,h]
  split
  · rename_i heq
    exact absurd (List.cons.inj heq).1 hminus
  · rename_i heq
    exact absurd (List.cons.inj heq).1 hplus
  · rfl

/-- A number that ends among the bytes is read from them alone. -/
theorem atoi_append {data : List Byte} (h : runsOut data = false) (behind : List Byte) :
    atoi (data ++ behind) = atoi data := by
  have hskip : (data ++ behind).dropWhile isSpace = data.dropWhile isSpace ++ behind := by
    rw [List.dropWhile_append]
    split
    · rename_i hempty
      rw [runsOut,List.isEmpty_iff.mp hempty] at h
      simp at h
    · rfl
  unfold runsOut at h
  split at h
  · rename_i rest hrest
    rw [atoi,atoi,hskip,hrest]
    exact congrArg Neg.neg (digits_append_of_not_all h behind)
  · rename_i rest hrest
    rw [atoi,atoi,hskip,hrest]
    exact digits_append_of_not_all h behind
  · rename_i hminus hplus
    cases hrest : data.dropWhile isSpace with
    | nil =>
        rw [hrest] at h
        simp at h
    | cons b rest =>
        have hnotMinus : b ≠ 45 := fun heq => hminus rest (hrest.trans (by rw [heq]; rfl))
        have hnotPlus : b ≠ 43 := fun heq => hplus rest (hrest.trans (by rw [heq]; rfl))
        rw [hrest] at h hskip
        rw [atoi_of_unsigned hskip hnotMinus hnotPlus,atoi_of_unsigned hrest hnotMinus hnotPlus]
        exact digits_append_of_not_all h behind

/-- The bytes of an element are in the packet, so only `atoi` gets behind them. -/
theorem parse_append {α : Type} {extension : Extension α} (hclass : ExtensionClass extension)
    {data : List Byte} {size : Byte} (hsize : size.toNat ≤ data.length)
    (hends : ReadByAtoi extension → runsOut data = false) (behind : List Byte) :
    extension.parse (data ++ behind) size = extension.parse data size := by
  have hget : ∀ i < size.toNat, (data ++ behind).getD i 0 = data.getD i 0 := by
    intro i hi
    rw [List.getD_eq_getElem?_getD,List.getD_eq_getElem?_getD,
      List.getElem?_append_left (by omega)]
  have hstreamId (hruns : runsOut data = false) :
      parseStreamId (data ++ behind) size = parseStreamId data size := by
    rw [parseStreamId,parseStreamId,atoi_append hruns]
    by_cases hzero : size = 0
    · simp only [hzero,decide_true,Bool.true_or,if_true]
    · rw [hget 0 (Nat.pos_of_ne_zero fun h => hzero (BitVec.eq_of_toNat_eq h))]
  cases hclass with
  | rtpStreamId => exact hstreamId (hends .rtpStreamId)
  | repairedRtpStreamId => exact hstreamId (hends .repairedRtpStreamId)
  | mid =>
      change parseMid _ _ = parseMid _ _
      rw [parseMid,parseMid,List.take_append_of_le_length hsize]
      by_cases hzero : size = 0
      · simp only [hzero,decide_true,Bool.true_or,if_true]
      · rw [hget 0 (Nat.pos_of_ne_zero fun h => hzero (BitVec.eq_of_toNat_eq h))]
  | transportSequenceNumber =>
      change TransportSequenceNumberExtension.parse _ _ = TransportSequenceNumberExtension.parse _ _
      rw [TransportSequenceNumberExtension.parse,TransportSequenceNumberExtension.parse]
      by_cases htwo : size = TransportSequenceNumberExtension.kValueSizeBytes
      · subst htwo
        simp only [loadUInt16BE]
        rw [hget 0 (by decide),hget 1 (by decide)]
      · rw [if_pos htwo,if_pos htwo]

section Copy
variable {buffer behind behind' : List Byte} {q : RtpPacket}
  {c newCapability : RtpHeaderExtensionCapability}

/-- No element of a parsed packet ends behind its data. -/
theorem element_ends (h : RtpPacket.create buffer behind = some q) {id : ℤ} {e : ExtensionInfo}
    (he : q.element id = some e) : e.offset.toNat + e.length.toNat ≤ q.data.length := by
  have hparsed := parsedAs_of_create h
  have hmem : e ∈ q.extensionEntries := List.mem_of_find?_eq_some he
  have hextension := hparsed.extension
  rw [parseExtensionPart] at hextension
  rw [hparsed.data]
  split at hextension
  · rw [Option.some.injEq,Prod.mk.injEq,Prod.mk.injEq] at hextension
    rw [← hextension.2.2] at hmem
    exact absurd hmem List.not_mem_nil
  · obtain ⟨hoffset,hlength,hentries⟩ := parseExtensionHeader_eq_some.mp hextension
    split at hentries
    · have hends := parseExtensions_ends (load16 buffer (fixedHeaderSize buffer)) buffer
        (fixedHeaderSize buffer + 4) ((load16 buffer (fixedHeaderSize buffer + 2)).toNat*4)
        ((load16 buffer (fixedHeaderSize buffer + 2)).toNat*4) 0 e
        (by rw [hentries]; exact hmem)
      omega
    · rw [← (Prod.mk.inj hentries).2] at hmem
      exact absurd hmem List.not_mem_nil

/-- Wherever such a packet lies, it reads the same. -/
theorem reading_of_endsInside {α : Type} {extension : Extension α}
    (h : RtpPacket.create buffer behind = some q) (hclass : ExtensionClass extension) {id : ℤ}
    (hends : q.EndsInside extension id) (behind' : List Byte) :
    q.reading behind' extension id = q.reading behind extension id := by
  have hreading : ∀ memory, q.reading memory extension id = q.reading [] extension id := by
    intro memory
    rw [RtpPacket.reading,RtpPacket.reading]
    cases he : q.element id with
    | none => rfl
    | some e =>
        have hinside := element_ends h he
        rw [Option.bind_some,Option.bind_some,List.append_nil,
          List.drop_append_of_le_length (by omega)]
        apply parse_append hclass
        · rw [List.length_drop]
          omega
        · exact fun hatoi => hends hatoi e he
  rw [hreading,hreading behind]

/-- The remapping of a copy changes the table, and neither ids nor bytes. -/
theorem copyFor_eq (h : RtpPacket.create buffer behind = some q) :
    (q.setExtensionCapability c).copyFor newCapability behind' =
      { q with extensionCapability := newCapability, behind := behind' } := by
  have hparsed := parsedAs_of_create h
  have hdata : q.data.take (q.setExtensionCapability c).size = q.data := by
    apply List.take_of_length_le
    have hroom := hparsed.room
    change q.data.length ≤ q.payloadOffset + q.payloadSize + q.paddingSize.toNat
    rw [hparsed.data,hparsed.payloadSize]
    omega
  rw [RtpPacket.copyFor,RtpPacket.updateExtensionCapability_of_empty rfl,RtpPacket.copy]
  change { q with
    data := q.data.take (q.setExtensionCapability c).size
    extensionCapability := newCapability
    behind := behind' } = _
  rw [hdata]

theorem reparsed_copyFor (h : RtpPacket.create buffer behind = some q) :
    ∃ r, RtpPacket.create ((q.setExtensionCapability c).copyFor newCapability behind').data
        behind' = some r ∧
      r.extensionEntries =
        ((q.setExtensionCapability c).copyFor newCapability behind').extensionEntries := by
  rw [copyFor_eq h]
  refine ⟨{ q with behind := behind' },?_,rfl⟩
  change RtpPacket.create q.data behind' = _
  have hmoved := RtpPacket.create_moved h behind'
  rwa [← (parsedAs_of_create h).data] at hmoved

/-- A copy has the value of the packet exactly when the two ids of the type lead to the same
reading, each where it lies. -/
theorem getExtensionValue_copyFor_iff {α : Type} (h : RtpPacket.create buffer behind = some q)
    (extension : Extension α) {id newId : ℤ} (hid : c.getTypeId extension.kType = some id)
    (hnew : newCapability.getTypeId extension.kType = some newId) :
    ((q.setExtensionCapability c).copyFor newCapability behind').getExtensionValue extension =
        (q.setExtensionCapability c).getExtensionValue extension ↔
      q.reading behind' extension newId = q.reading behind extension id := by
  rw [copyFor_eq h,RtpPacket.getExtensionValue_eq,RtpPacket.getExtensionValue_eq,hnew]
  change q.reading behind' extension newId =
    (c.getTypeId extension.kType).bind (q.reading q.behind extension) ↔ _
  rw [hid,Option.bind_some,RtpPacket.behind_of_create h]

/-- The remapping works exactly when, for each extension class of the publisher's table, both
tables have one id for it and no stream id under it runs to the last byte of the packet, or what
the packet and the copy have under their ids reads the same with the memory behind each. -/
theorem remaps_iff (h : RtpPacket.create buffer behind = some q)
    (hregisters : Registers c newCapability) :
    (q.setExtensionCapability c).Remaps newCapability behind' ↔
      ∀ {α : Type} (extension : Extension α), ExtensionClass extension →
        ∀ id newId, c.getTypeId extension.kType = some id →
          newCapability.getTypeId extension.kType = some newId →
            (newId = id ∧ q.EndsInside extension id) ∨
              q.reading behind' extension newId = q.reading behind extension id := by
  constructor
  · intro hremaps α extension hclass id newId hid hnew
    right
    apply (getExtensionValue_copyFor_iff h extension hid hnew).mp
    apply hremaps.values extension hclass
    change c.getTypeId extension.kType ≠ none
    rw [hid]
    simp
  · intro hreadings
    constructor
    · intro α extension hclass hregistered
      change c.getTypeId extension.kType ≠ none at hregistered
      cases hid : c.getTypeId extension.kType with
      | none => exact absurd hid hregistered
      | some id =>
          cases hnew : newCapability.getTypeId extension.kType with
          | none => exact absurd hnew (hregisters _ hregistered)
          | some newId =>
              apply (getExtensionValue_copyFor_iff h extension hid hnew).mpr
              cases hreadings extension hclass id newId hid hnew with
              | inl hsame =>
                  rw [hsame.1]
                  exact reading_of_endsInside h hclass hsame.2 behind'
              | inr hreading => exact hreading
    · exact reparsed_copyFor h

end Copy

/-- One element with id 1, the stream id 7. -/
def streamIdPacket : List Byte :=
  [0x90,96,0,1,0,0,0,2,0,0,0,3,0xbe,0xde,0,1,0x10,55,0,0]

def idOne : RtpHeaderExtensionCapability := ⟨[(.rtpStreamId,1)]⟩
def idTwo : RtpHeaderExtensionCapability := ⟨[(.rtpStreamId,2)]⟩

theorem getTypeId_single {type type' : RTPHeaderExtensionType} {n id : ℤ}
    (h : RtpHeaderExtensionCapability.getTypeId ⟨[(type,n)]⟩ type' = some id) :
    type' = type ∧ id = n := by
  rw [RtpHeaderExtensionCapability.getTypeId,List.lookup_cons] at h
  split at h
  · rename_i hsame
    exact ⟨of_decide_eq_true hsame,(Option.some.inj h).symm⟩
  · simp at h

theorem negotiated_single {type : RTPHeaderExtensionType} {n : ℤ} (h : 1 ≤ n ∧ n ≤ 14) :
    Negotiated ⟨[(type,n)]⟩ where
  injective _ _ _ h h' := (getTypeId_single h).1.trans (getTypeId_single h').1.symm
  range _ _ h' := (getTypeId_single h').2 ▸ h

theorem registers_single (type : RTPHeaderExtensionType) (n n' : ℤ) :
    Registers ⟨[(type,n)]⟩ ⟨[(type,n')]⟩ := by
  intro type' h
  rw [RtpHeaderExtensionCapability.getTypeId,List.lookup_cons] at h ⊢
  split
  · simp
  · rename_i hsame
    rw [hsame] at h
    exact h

theorem remaps_iff_streamIdPacket : ∃ q, RtpPacket.create streamIdPacket [50] = some q ∧
    ((q.setExtensionCapability idOne).Remaps idOne [51] ↔
      ∀ {α : Type} (extension : Extension α), ExtensionClass extension →
        ∀ id newId, idOne.getTypeId extension.kType = some id →
          idOne.getTypeId extension.kType = some newId →
            (newId = id ∧ q.EndsInside extension id) ∨
              q.reading [51] extension newId = q.reading [50] extension id) :=
  ⟨_,rfl,@remaps_iff streamIdPacket [50] [51] _ idOne idOne rfl (registers_single _ _ _)⟩

theorem not_remaps : ¬∀ (buffer behind behind' : List Byte) (q : RtpPacket),
    RtpPacket.create buffer behind = some q → ∀ c newCapability : RtpHeaderExtensionCapability,
      Negotiated c → Negotiated newCapability → Registers c newCapability →
        (q.setExtensionCapability c).Remaps newCapability behind' := by
  intro hall
  have hvalues : (RtpPacket.create streamIdPacket).map (fun q =>
      (((q.setExtensionCapability idOne).copyFor idTwo []).getExtensionValue rtpStreamIdExtension,
        (q.setExtensionCapability idOne).getExtensionValue rtpStreamIdExtension)) =
      some (none,some 7) := by decide
  cases hcreate : RtpPacket.create streamIdPacket with
  | none => simp [hcreate] at hvalues
  | some q =>
      have hremaps := hall streamIdPacket [] [] q hcreate idOne idTwo
        (negotiated_single (by decide)) (negotiated_single (by decide)) (registers_single _ _ _)
      have hsame := hremaps.values rtpStreamIdExtension .rtpStreamId (by
        change idOne.getTypeId .rtpStreamId ≠ none
        decide)
      rw [hcreate,Option.map_some,hsame,Option.some.injEq,Prod.mk.injEq] at hvalues
      exact absurd (hvalues.1.symm.trans hvalues.2) (by simp)

end Ylrtc.Packet
