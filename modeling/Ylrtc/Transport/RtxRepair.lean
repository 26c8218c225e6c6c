import Ylrtc.Transport.RtxRoundTrip

/-!
# `RtxRepair` and the packet's own bytes

`RtxRepair` with its accesses to the bytes that `Create` copied, and the read of the
original sequence number that `PublishStreamTrack::ReceiveRtpPacket` makes before it. An
access outside these bytes is undefined in the source, and has no result here.
-/
namespace Ylrtc.Packet
open ByteBuffer CursorParser

/-- Subtraction on `size_t`. -/
def sizeSub (a b : ℕ) : ℕ := if b ≤ a then a - b else a + 2^64 - b

def readOwn (data : List Byte) (k n : ℕ) : Option (List Byte) :=
  if k + n ≤ data.length then some ((data.drop k).take n) else none

def writeOwn (data : List Byte) (k : ℕ) (bytes : List Byte) : Option (List Byte) :=
  if k + bytes.length ≤ data.length then some (store data k bytes) else none

/-- `memmove` inside the packet. -/
def moveOwn (data : List Byte) (target source n : ℕ) : Option (List Byte) := do
  let bytes ← readOwn data source n
  writeOwn data target bytes

namespace RtpPacket

/-- `LoadUInt16BE(Payload())`. -/
def rtxOriginalSequenceNumber (p : RtpPacket) : Option (BitVec 16) := do
  let bytes ← readOwn p.data p.payloadOffset 2
  return load16 bytes 0

/-- The end of `RtxRepair`, once the payload has moved. -/
def rtxRepairPadding (p : RtpPacket) : Option RtpPacket :=
  if p.paddingSize = 0 then return { p with payloadSize := sizeSub p.payloadSize kRtxHeaderSize }
  else do
    let paddingSize := p.paddingSize + 2
    let last := p.payloadOffset + p.payloadSize + paddingSize.toNat - 1
    let byte ← readOwn p.data last 1
    let data ← writeOwn p.data last [byte.getD 0 0 + 2]
    return { p with
      paddingSize := paddingSize
      payloadSize := sizeSub p.payloadSize kRtxHeaderSize
      data := data }

/-- `RtxRepair`, with its answer. -/
def rtxRepairChecked (p : RtpPacket) (sequenceNumber : BitVec 16) (payloadType : Byte)
    (ssrc : BitVec 32) : Option (Bool × RtpPacket) :=
  if p.payloadSize = 0 then return (false,p)
  else do
    let second ← readOwn p.data 1 1
    let data ← writeOwn p.data 1 [(second.getD 0 0 &&& 0x80) ||| payloadType]
    let data ← writeOwn data 2 (storeUInt16BE sequenceNumber)
    let data ← writeOwn data 8 (storeUInt32BE ssrc)
    let data ← moveOwn data p.payloadOffset (p.payloadOffset+kRtxHeaderSize)
      (sizeSub p.payloadSize kRtxHeaderSize)
    let q ← rtxRepairPadding { p with
      payloadType := payloadType
      sequenceNumber := sequenceNumber
      ssrc := ssrc
      data := data }
    return (true,q)

/-- The bytes of the payload. -/
def ownPayload (p : RtpPacket) : List Byte := (p.data.drop p.payloadOffset).take p.payloadSize

/-- The bytes `Data()[0 .. Size())`. -/
def ownBytes (p : RtpPacket) : List Byte := p.data.take p.size

/-- What a repair is for: no access leaves the packet, a repaired packet reads back as itself
without the two bytes in front of its payload, and a payload too short for them is refused. -/
structure Repairs (p : RtpPacket) (sequenceNumber : BitVec 16) (payloadType : Byte)
    (ssrc : BitVec 32) : Prop where
  read : p.rtxOriginalSequenceNumber ≠ none
  inside : p.rtxRepairChecked sequenceNumber payloadType ssrc ≠ none
  reparsed : ∀ q, p.rtxRepairChecked sequenceNumber payloadType ssrc = some (true,q) →
    q.size ≤ q.data.length ∧ create q.ownBytes q.behind = some { q with data := q.ownBytes } ∧
      q.ownPayload = p.ownPayload.drop kRtxHeaderSize ∧ q.paddingSize = p.paddingSize
  refused : p.payloadSize < kRtxHeaderSize →
    p.rtxRepairChecked sequenceNumber payloadType ssrc = some (false,p)

end RtpPacket

theorem writeOwn_of_le {data bytes : List Byte} {k : ℕ} (h : k + bytes.length ≤ data.length) :
    writeOwn data k bytes = some (store data k bytes) := if_pos h

theorem readOwn_of_le {data : List Byte} {k n : ℕ} (h : k + n ≤ data.length) :
    readOwn data k n = some ((data.drop k).take n) := if_pos h

theorem readOwn_isSome_iff {data : List Byte} {k n : ℕ} :
    readOwn data k n ≠ none ↔ k + n ≤ data.length := by
  unfold readOwn
  by_cases h : k + n ≤ data.length
  · rw [if_pos h]
    exact iff_of_true (by simp) h
  · rw [if_neg h]
    exact iff_of_false (by simp) h

theorem moveOwn_of_le {data : List Byte} {target source n : ℕ} (hsource : source + n ≤ data.length)
    (htarget : target + n ≤ data.length) :
    moveOwn data target source n = some (store data target ((data.drop source).take n)) := by
  have hlength : ((data.drop source).take n).length = n := by
    rw [List.length_take,List.length_drop]
    omega
  unfold moveOwn
  rw [readOwn_of_le hsource,Option.bind_eq_bind,Option.bind_some,
    writeOwn_of_le (by rw [hlength]; exact htarget)]

/-! ### The repaired packet -/

namespace RtpPacket

/-- The bytes once the three header fields are stored. -/
def rtxHeader (p : RtpPacket) (sequenceNumber : BitVec 16) (payloadType : Byte)
    (ssrc : BitVec 32) : List Byte :=
  store (store (store p.data 1 [(p.data.getD 1 0 &&& 0x80) ||| payloadType]) 2
    (storeUInt16BE sequenceNumber)) 8 (storeUInt32BE ssrc)

/-- The bytes once the payload has moved over the original sequence number. -/
def rtxMoved (p : RtpPacket) (sequenceNumber : BitVec 16) (payloadType : Byte)
    (ssrc : BitVec 32) : List Byte :=
  store (p.rtxHeader sequenceNumber payloadType ssrc) p.payloadOffset
    (((p.rtxHeader sequenceNumber payloadType ssrc).drop (p.payloadOffset+2)).take
      (p.payloadSize-2))

/-- The bytes that a repaired packet sends. -/
def rtxRepaired (p : RtpPacket) (sequenceNumber : BitVec 16) (payloadType : Byte)
    (ssrc : BitVec 32) : List Byte :=
  (p.rtxMoved sequenceNumber payloadType ssrc).take (p.payloadOffset+(p.payloadSize-2))

end RtpPacket

section Repaired
variable {buffer : List Byte} {p : RtpPacket} {sequenceNumber : BitVec 16} {payloadType : Byte}
  {ssrc : BitVec 32}

theorem ParsedAs.twelve_le (h : ParsedAs buffer p) : 12 ≤ p.payloadOffset :=
  (Nat.le_add_right _ _).trans (fixedHeaderSize_le h.extension)

theorem ParsedAs.size (h : ParsedAs buffer p) :
    p.payloadOffset + p.payloadSize + p.paddingSize.toNat = p.data.length := by
  have hroom := h.room
  rw [h.data,h.payloadSize]
  omega

variable (sequenceNumber payloadType ssrc) in
theorem ParsedAs.rtxHeader_spec (h : ParsedAs buffer p) :
    (p.rtxHeader sequenceNumber payloadType ssrc).length = p.data.length ∧
      ∀ i, (p.rtxHeader sequenceNumber payloadType ssrc).getD i 0 =
        Subscribe.headerByte ((p.data.getD 1 0 &&& 0x80) ||| payloadType) sequenceNumber ssrc
          p.data i := by
  have htwelve := h.twelve_le
  have hsize := h.size
  exact Subscribe.getD_repaired (by omega) _ sequenceNumber ssrc

/-- Every store into the header is inside; what follows decides. -/
theorem ParsedAs.rtxRepairChecked (h : ParsedAs buffer p) (hpayload : p.payloadSize ≠ 0) :
    p.rtxRepairChecked sequenceNumber payloadType ssrc =
      (moveOwn (p.rtxHeader sequenceNumber payloadType ssrc) p.payloadOffset
        (p.payloadOffset+kRtxHeaderSize) (sizeSub p.payloadSize kRtxHeaderSize)).bind fun data =>
          ({ p with payloadType := payloadType, sequenceNumber := sequenceNumber, ssrc := ssrc,
                    data := data }.rtxRepairPadding).bind fun q => some (true,q) := by
  have htwelve := h.twelve_le
  have hsize := h.size
  have hlengths := Subscribe.repaired_lengths (show 12 ≤ p.data.length by omega)
    ((p.data.getD 1 0 &&& 0x80) ||| payloadType) sequenceNumber
  have hbyte : ((p.data.drop 1).take 1).getD 0 0 = p.data.getD 1 0 :=
    Subscribe.getD_slice p.data Nat.one_pos
  unfold RtpPacket.rtxRepairChecked
  rw [if_neg hpayload,readOwn_of_le (by omega),Option.bind_eq_bind,Option.bind_some,hbyte,
    writeOwn_of_le (by rw [List.length_singleton]; omega),Option.bind_some,
    writeOwn_of_le (by rw [storeUInt16BE_length]; omega),Option.bind_some,
    writeOwn_of_le (by rw [storeUInt32BE_length]; omega),Option.bind_some]
  rfl

theorem sizeSub_of_le {a b : ℕ} (h : b ≤ a) : sizeSub a b = a - b := if_pos h

variable (sequenceNumber payloadType ssrc) in
/-- Without padding the repair does what `rtxRepair` says. -/
theorem ParsedAs.rtxRepairChecked_plain (h : ParsedAs buffer p) (hpayload : 2 ≤ p.payloadSize)
    (hpadding : p.paddingSize = 0) :
    p.rtxRepairChecked sequenceNumber payloadType ssrc = some (true,
      { p with payloadType := payloadType, sequenceNumber := sequenceNumber, ssrc := ssrc,
               payloadSize := p.payloadSize - 2,
               data := p.rtxMoved sequenceNumber payloadType ssrc }) := by
  have hsize := h.size
  have hheader := (h.rtxHeader_spec sequenceNumber payloadType ssrc).1
  have htwo : kRtxHeaderSize = 2 := rfl
  rw [h.rtxRepairChecked (by omega),htwo,sizeSub_of_le hpayload,
    moveOwn_of_le (by omega) (by omega),Option.bind_some,RtpPacket.rtxRepairPadding]
  simp only
  rw [if_pos hpadding,htwo,sizeSub_of_le hpayload]
  rfl

variable (sequenceNumber payloadType ssrc) in
/-- Before the payload the header with its new fields, then the payload from its third byte. -/
theorem ParsedAs.rtxRepaired_spec (h : ParsedAs buffer p) (hpayload : 2 ≤ p.payloadSize) :
    (p.rtxMoved sequenceNumber payloadType ssrc).length = p.data.length ∧
      ∀ i < p.payloadOffset+(p.payloadSize-2),
        (p.rtxRepaired sequenceNumber payloadType ssrc).getD i 0 =
          if i < p.payloadOffset then
            Subscribe.headerByte ((p.data.getD 1 0 &&& 0x80) ||| payloadType) sequenceNumber ssrc
              p.data i
          else p.data.getD (i+2) 0 := by
  have htwelve := h.twelve_le
  have hsize := h.size
  have hheader := h.rtxHeader_spec sequenceNumber payloadType ssrc
  have hlength : (((p.rtxHeader sequenceNumber payloadType ssrc).drop (p.payloadOffset+2)).take
      (p.payloadSize-2)).length = p.payloadSize-2 := by
    rw [List.length_take,List.length_drop]
    omega
  constructor
  · exact (store_length (by omega)).trans hheader.1
  · intro i hi
    have htake := Subscribe.getD_slice (p.rtxMoved sequenceNumber payloadType ssrc) (k := 0) hi
    rw [List.drop_zero,Nat.zero_add] at htake
    rw [RtpPacket.rtxRepaired,htake,RtpPacket.rtxMoved,getD_store (by omega),hlength]
    by_cases hbefore : i < p.payloadOffset
    · rw [if_neg (by omega),if_pos hbefore]
      exact hheader.2 i
    · rw [if_pos (by omega),if_neg hbefore,Subscribe.getD_slice _ (by omega),hheader.2,
        Subscribe.headerByte,if_neg (by omega),if_neg (by omega),if_neg (by omega)]
      congr 1
      omega

variable (sequenceNumber payloadType ssrc) in
theorem ParsedAs.rtxRepaired_length (h : ParsedAs buffer p) (hpayload : 2 ≤ p.payloadSize) :
    (p.rtxRepaired sequenceNumber payloadType ssrc).length = p.payloadOffset+(p.payloadSize-2) := by
  have hsize := h.size
  have hmoved := (h.rtxRepaired_spec sequenceNumber payloadType ssrc hpayload).1
  exact List.length_take_of_le (by omega)

variable (sequenceNumber payloadType ssrc) in
/-- The bytes in front of the payload that no field set by the repair has. -/
theorem ParsedAs.rtxRepaired_kept (h : ParsedAs buffer p) (hpayload : 2 ≤ p.payloadSize) {i : ℕ}
    (hi : i < p.payloadOffset) (hfield : i = 0 ∨ 4 ≤ i ∧ i < 8 ∨ 12 ≤ i) :
    (p.rtxRepaired sequenceNumber payloadType ssrc).getD i 0 = buffer.getD i 0 := by
  rw [(h.rtxRepaired_spec sequenceNumber payloadType ssrc hpayload).2 i (by omega),if_pos hi,
    Subscribe.headerByte,if_neg (by omega),if_neg (by omega),if_neg (by omega),h.data]

/-- The payload is the old one behind the original sequence number. -/
theorem ParsedAs.rtxMoved_payload (h : ParsedAs buffer p) (hpayload : 2 ≤ p.payloadSize) :
    ((p.rtxMoved sequenceNumber payloadType ssrc).drop p.payloadOffset).take (p.payloadSize-2) =
      p.ownPayload.drop 2 := by
  have htwelve := h.twelve_le
  have hsize := h.size
  have hheader := (h.rtxHeader_spec sequenceNumber payloadType ssrc).1
  have hlengths := Subscribe.repaired_lengths (show 12 ≤ p.data.length by omega)
    ((p.data.getD 1 0 &&& 0x80) ||| payloadType) sequenceNumber
  have htake : ((p.rtxHeader sequenceNumber payloadType ssrc).take p.payloadOffset).length =
      p.payloadOffset := List.length_take_of_le (by omega)
  have hbehind : (p.rtxHeader sequenceNumber payloadType ssrc).drop (p.payloadOffset+2) =
      p.data.drop (p.payloadOffset+2) := by
    rw [RtpPacket.rtxHeader,drop_store (by rw [storeUInt32BE_length]; omega) (by omega),
      drop_store (by rw [storeUInt16BE_length]; omega) (by omega),
      drop_store (by rw [List.length_singleton]; omega) (by omega)]
  have hmoved : ((p.data.drop (p.payloadOffset+2)).take (p.payloadSize-2)).length =
      p.payloadSize-2 := by
    rw [List.length_take,List.length_drop]
    omega
  rw [RtpPacket.rtxMoved,hbehind,store,List.append_assoc,List.drop_append_of_le_length (by omega),
    List.drop_eq_nil_of_le (by omega),List.nil_append,List.take_append_of_le_length (by omega),
    List.take_of_length_le (by omega),RtpPacket.ownPayload,List.drop_take,List.drop_drop]

/-- A payload type below 128 leaves the marker, and is read back. -/
theorem second_of_lt {second payloadType : Byte} (h : payloadType.toNat < 128) :
    ((second &&& 0x80) ||| payloadType) &&& 0x80 = second &&& 0x80 ∧
      ((second &&& 0x80) ||| payloadType) &&& 0x7f = payloadType := by
  have hbits : ∀ b : Byte, b.toNat < 128 → b &&& 0x80 = 0#8 ∧ b &&& 0x7f = b := by decide
  have hmask : (0x80 : Byte) &&& 0x80 = 0x80 ∧ (0x80 : Byte) &&& 0x7f = 0#8 := by decide
  constructor
  · rw [BitVec.and_comm,BitVec.and_or_distrib_left,BitVec.and_comm,BitVec.and_assoc,hmask.1,
      BitVec.and_comm 0x80 payloadType,(hbits _ h).1,BitVec.or_zero]
  · rw [BitVec.and_comm,BitVec.and_or_distrib_left,BitVec.and_comm,BitVec.and_assoc,hmask.2,
      BitVec.and_zero,BitVec.zero_or,BitVec.and_comm,(hbits _ h).2]

variable (sequenceNumber ssrc) in
/-- A repaired packet reads back as itself. -/
theorem ParsedAs.reparse (h : ParsedAs buffer p) (hpayload : 2 ≤ p.payloadSize)
    (hpadding : p.paddingSize = 0) (htype : payloadType.toNat < 128) :
    ParsedAs (p.rtxRepaired sequenceNumber payloadType ssrc)
      { p with payloadType := payloadType, sequenceNumber := sequenceNumber, ssrc := ssrc,
               payloadSize := p.payloadSize - 2,
               data := p.rtxRepaired sequenceNumber payloadType ssrc } := by
  have htwelve := h.twelve_le
  have hfixed := fixedHeaderSize_le h.extension
  have hlength := h.rtxRepaired_length sequenceNumber payloadType ssrc hpayload
  have hheader (i : ℕ) (hi : i < p.payloadOffset) :=
    (h.rtxRepaired_spec sequenceNumber payloadType ssrc hpayload).2 i (by omega)
  have hkept (i : ℕ) := h.rtxRepaired_kept sequenceNumber payloadType ssrc hpayload (i := i)
  generalize p.rtxRepaired sequenceNumber payloadType ssrc = bytes at hlength hheader hkept ⊢
  have hfirst := hkept 0 (by omega) (.inl rfl)
  have hone : bytes.getD 1 0 = (buffer.getD 1 0 &&& 0x80) ||| payloadType := by
    rw [hheader 1 (by omega),if_pos (by omega),Subscribe.headerByte,if_pos rfl,h.data]
  have hpart := parseExtensionPart_eq hfirst
    (fun i hlow hhigh => hkept i hhigh (.inr (.inr hlow))) (by omega) h.extension
  have hclear := h.padding
  rw [hpadding,parsePadding_zero] at hclear
  have hzero : p.paddingSize.toNat = 0 := by rw [hpadding]; rfl
  constructor
  case length => rw [hlength]; exact htwelve.trans (Nat.le_add_right _ _)
  case version => rw [hfirst]; exact h.version
  case fixed =>
    rw [fixedHeaderSize,hfirst,hlength]
    exact hfixed.trans (Nat.le_add_right _ _)
  case padding =>
    change parsePadding bytes = some p.paddingSize
    rw [hpadding,parsePadding_zero,hfirst]
    exact hclear
  case extension => exact hpart
  case room =>
    change p.payloadOffset + p.paddingSize.toNat ≤ bytes.length
    omega
  case marker =>
    change p.marker = _
    rw [h.marker,hone,(second_of_lt htype).1]
  case payloadType =>
    change payloadType = _
    rw [hone,(second_of_lt htype).2]
  case sequenceNumber =>
    symm
    apply Subscribe.load16_of_getD
    intro i hlow hhigh
    rw [hheader i (by omega),if_pos (by omega),Subscribe.headerByte,if_neg (by omega),
      if_pos ⟨hlow,hhigh⟩]
  case timestamp =>
    change p.timestamp = _
    rw [h.timestamp,load32,load32,loadUInt32BE,loadUInt32BE,
      hkept 4 (by omega) (by omega),hkept 5 (by omega) (by omega),
      hkept 6 (by omega) (by omega),hkept 7 (by omega) (by omega)]
  case ssrc =>
    symm
    apply load32_of_getD
    intro i hlow hhigh
    rw [hheader i (by omega),if_pos (by omega),Subscribe.headerByte,if_neg (by omega),
      if_neg (by omega),if_pos ⟨hlow,hhigh⟩]
  case payloadSize =>
    change p.payloadSize - 2 = bytes.length - p.payloadOffset - p.paddingSize.toNat
    omega
  case data => rfl
  case payloadInfo => exact h.payloadInfo
  case extensionCapability => exact h.extensionCapability

/-- With padding, whatever the repair does, it counts two bytes of padding more. -/
theorem rtxRepairPadding_paddingSize {q : RtpPacket} (h : p.rtxRepairPadding = some q)
    (hpadding : p.paddingSize ≠ 0) : q.paddingSize = p.paddingSize + 2 := by
  unfold RtpPacket.rtxRepairPadding at h
  rw [if_neg hpadding] at h
  simp only [Option.bind_eq_bind,Option.bind_eq_some_iff] at h
  cases h with
  | intro byte h =>
      cases h.2 with
      | intro data h =>
          rw [← Option.some.inj h.2]

/-- A packet that is not empty is never refused. -/
theorem ParsedAs.rtxRepairChecked_eq_some (h : ParsedAs buffer p) (hpayload : p.payloadSize ≠ 0)
    {r : Bool × RtpPacket} (hr : p.rtxRepairChecked sequenceNumber payloadType ssrc = some r) :
    r.1 = true ∧ (p.paddingSize ≠ 0 → r.2.paddingSize = p.paddingSize + 2) := by
  rw [h.rtxRepairChecked hpayload,Option.bind_eq_some_iff] at hr
  cases hr with
  | intro data hr =>
      cases Option.bind_eq_some_iff.mp hr.2 with
      | intro q hq =>
          have hpaddingSize := rtxRepairPadding_paddingSize hq.1
          rw [← Option.some.inj hq.2]
          exact ⟨rfl,hpaddingSize⟩

theorem rtxOriginalSequenceNumber_ne_none :
    p.rtxOriginalSequenceNumber ≠ none ↔ p.payloadOffset + 2 ≤ p.data.length := by
  rw [← readOwn_isSome_iff,RtpPacket.rtxOriginalSequenceNumber]
  cases readOwn p.data p.payloadOffset 2 with
  | none => exact iff_of_false (fun h => h rfl) fun h => h rfl
  | some bytes => exact iff_of_true (by simp) (by simp)

theorem ParsedAs.repairs_of_plain (h : ParsedAs buffer p) (hpayload : 2 ≤ p.payloadSize)
    (hpadding : p.paddingSize = 0) (htype : payloadType.toNat < 128) :
    p.Repairs sequenceNumber payloadType ssrc := by
  have hsize := h.size
  have hr := h.rtxRepairChecked_plain sequenceNumber payloadType ssrc hpayload hpadding
  have hmoved := (h.rtxRepaired_spec sequenceNumber payloadType ssrc hpayload).1
  have hzero : p.paddingSize.toNat = 0 := by rw [hpadding]; rfl
  constructor
  case read => exact rtxOriginalSequenceNumber_ne_none.mpr (by omega)
  case inside =>
    rw [hr]
    simp
  case reparsed =>
    intro q hq
    rw [hr,Option.some.injEq,Prod.mk.injEq] at hq
    have hsent : q.size = p.payloadOffset+(p.payloadSize-2) := by
      rw [← hq.2,RtpPacket.size,hzero,Nat.add_zero]
    have hbytes : q.ownBytes = p.rtxRepaired sequenceNumber payloadType ssrc := by
      rw [RtpPacket.ownBytes,hsent,← hq.2,RtpPacket.rtxRepaired]
    rw [hbytes,hsent,← hq.2]
    refine ⟨?_,(h.reparse sequenceNumber ssrc hpayload hpadding htype).create,
      h.rtxMoved_payload hpayload,rfl⟩
    change _ ≤ (p.rtxMoved sequenceNumber payloadType ssrc).length
    omega
  case refused => exact fun hshort => absurd hpayload (not_le.mpr hshort)

/-- An empty payload is refused before any access. -/
theorem repairs_of_empty (hempty : p.payloadSize = 0)
    (hread : p.payloadOffset + 2 ≤ p.data.length) :
    p.Repairs sequenceNumber payloadType ssrc := by
  have hr : p.rtxRepairChecked sequenceNumber payloadType ssrc = some (false,p) := if_pos hempty
  constructor
  case read => exact rtxOriginalSequenceNumber_ne_none.mpr hread
  case inside =>
    rw [hr]
    simp
  case reparsed =>
    intro q hq
    rw [hr] at hq
    simp at hq
  case refused => exact fun _ => hr

/-- One byte is not refused, and padding does not stay. -/
theorem ParsedAs.plain_of_repairs (h : ParsedAs buffer p) (hpayload : p.payloadSize ≠ 0)
    (hrepairs : p.Repairs sequenceNumber payloadType ssrc) :
    2 ≤ p.payloadSize ∧ p.paddingSize = 0 := by
  constructor
  · by_contra hshort
    have hr := hrepairs.refused (not_le.mp hshort)
    exact absurd (h.rtxRepairChecked_eq_some hpayload hr).1 (by simp)
  · by_contra hpadding
    cases hr : p.rtxRepairChecked sequenceNumber payloadType ssrc with
    | none => exact hrepairs.inside hr
    | some r =>
        have hanswer := h.rtxRepairChecked_eq_some hpayload hr
        have hsame := (hrepairs.reparsed r.2 (by rw [hr,← hanswer.1])).2.2.2
        have hmore : ∀ b : Byte, b + 2 ≠ b := by decide
        exact hmore p.paddingSize ((hanswer.2 hpadding).symm.trans hsame)

/-- A repair does what it is for exactly where the payload has room for the original sequence
number and no padding follows it, or where an empty payload leaves the read to two bytes of
padding. -/
theorem repairs_iff {buffer : List Byte} {p : RtpPacket} (hcreate : RtpPacket.create buffer = some p)
    (sequenceNumber : BitVec 16) {payloadType : Byte} (htype : payloadType.toNat < 128)
    (ssrc : BitVec 32) :
    p.Repairs sequenceNumber payloadType ssrc ↔
      2 ≤ p.payloadSize ∧ p.paddingSize = 0 ∨ p.payloadSize = 0 ∧ 2 ≤ p.paddingSize.toNat := by
  have h := parsedAs_of_create hcreate
  have hsize := h.size
  constructor
  · intro hrepairs
    by_cases hempty : p.payloadSize = 0
    · have hread := rtxOriginalSequenceNumber_ne_none.mp hrepairs.read
      exact Or.inr ⟨hempty,by omega⟩
    · exact Or.inl (h.plain_of_repairs hempty hrepairs)
  · intro hcases
    cases hcases with
    | inl hplain => exact h.repairs_of_plain hplain.1 hplain.2 htype
    | inr hempty => exact repairs_of_empty hempty.1 (by omega)

end Repaired

theorem repairs_iff_plainPacket : ∃ p, RtpPacket.create Subscribe.plainPacket = some p ∧
    (p.Repairs 5 96 9 ↔
      2 ≤ p.payloadSize ∧ p.paddingSize = 0 ∨ p.payloadSize = 0 ∧ 2 ≤ p.paddingSize.toNat) :=
  ⟨_,rfl,@repairs_iff Subscribe.plainPacket _ rfl 5 96 (by decide) 9⟩

/-- One byte of payload: `payload_size_ - kRtxHeaderSize` is the largest `size_t`. -/
def oneByteRetransmission : List Byte := [0x80,97,0,7,0,0,0,1,0,0,0,9,0xAA]

theorem not_repairs : ¬∀ (buffer : List Byte) (p : RtpPacket), RtpPacket.create buffer = some p →
    ∀ (sequenceNumber : BitVec 16) (payloadType : Byte), payloadType.toNat < 128 →
      ∀ ssrc : BitVec 32, p.Repairs sequenceNumber payloadType ssrc := by
  intro hall
  have hnone : (RtpPacket.create oneByteRetransmission).map
      (fun p => p.rtxRepairChecked 5 96 9) = some none := by decide
  cases hcreate : RtpPacket.create oneByteRetransmission with
  | none => simp [hcreate] at hnone
  | some p =>
      rw [hcreate,Option.map_some,Option.some.injEq] at hnone
      exact (hall oneByteRetransmission p hcreate 5 96 (by decide) 9).inside hnone

end Ylrtc.Packet
