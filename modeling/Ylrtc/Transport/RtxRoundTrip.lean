import Ylrtc.Rtp.PacketLayout
import Ylrtc.Transport.SubscribeStream

/-!
# A retransmission and its repair

The bytes that `OnSubscribeStreamTrackSendRtxPacket` assembles, parsed and repaired as the
receiving side of this server does it. Padding never survives.
-/
namespace Ylrtc.Subscribe
open ByteBuffer CursorParser Packet RtpPacket SubscribeStream

/-! ### What `Create` accepts -/

/-- The checks of `Parse`, with the padding and the payload offset that they find. -/
structure Accepts (buffer : List Byte) (paddingSize : Byte) (payloadOffset : ℕ) : Prop where
  length : kMinRtpPacketLen ≤ buffer.length
  version : buffer.getD 0 0 >>> 6 = kRtpVersion
  fixed : fixedHeaderSize buffer ≤ buffer.length
  padding : parsePadding buffer = some paddingSize
  extension : ∃ r, parseExtensionPart buffer = some (payloadOffset,r)
  room : payloadOffset + paddingSize.toNat ≤ buffer.length

/-- The fields that the round trip reads, as `Parse` sets them. -/
structure Parsed (buffer : List Byte) (p : RtpPacket) : Prop extends
    Accepts buffer p.paddingSize p.payloadOffset where
  data : p.data = buffer
  marker : p.marker = (buffer.getD 1 0 &&& 0x80 != 0)
  payloadType : p.payloadType = buffer.getD 1 0 &&& 0x7f
  sequenceNumber : p.sequenceNumber = load16 buffer 2
  ssrc : p.ssrc = load32 buffer 8
  payloadSize : p.payloadSize = buffer.length - p.payloadOffset - p.paddingSize.toNat
  extensionCapability : p.extensionCapability = {}

theorem parsed_of_create {buffer : List Byte} {p : RtpPacket} (h : create buffer = some p) :
    Parsed buffer p := by
  have hp := parsedAs_of_create h
  exact ⟨⟨hp.length,hp.version,hp.fixed,hp.padding,⟨_,hp.extension⟩,hp.room⟩,hp.data,hp.marker,
    hp.payloadType,hp.sequenceNumber,hp.ssrc,hp.payloadSize,hp.extensionCapability⟩

theorem create_of_accepts {buffer : List Byte} {paddingSize : Byte} {payloadOffset : ℕ}
    (h : Accepts buffer paddingSize payloadOffset) : ∃ p, create buffer = some p := by
  cases h.extension with
  | intro r hextension =>
      unfold create
      rw [if_neg (not_lt.mpr h.length),if_neg (not_not.mpr h.version),
        if_neg (not_lt.mpr h.fixed),h.padding,hextension]
      exact ⟨_,if_neg (not_lt.mpr h.room)⟩

theorem Accepts.twelve_le {buffer : List Byte} {paddingSize : Byte} {payloadOffset : ℕ}
    (h : Accepts buffer paddingSize payloadOffset) : 12 ≤ payloadOffset := by
  cases h.extension with
  | intro r hextension =>
      exact (Nat.le_add_right _ _).trans (fixedHeaderSize_le hextension)

/-! ### The bytes of a retransmission -/

/-- The plain bytes that are assembled for a packet, whose number in the transport has been
set. -/
def rtxPlainBytes (memory : ℕ → Byte) (transportNumber : BitVec 16) (packet : RtpPacket)
    (payloadType : Byte) (ssrc : BitVec 32) (sequenceNumber : BitVec 16) : List Byte :=
  rtxBytes memory (packet.setTransportSequenceNumber transportNumber) payloadType ssrc
    sequenceNumber

/-- Without a negotiated extension there is no number to set. -/
theorem setTransportSequenceNumber_of_empty {p : RtpPacket} (h : p.extensionCapability = {})
    (n : BitVec 16) : p.setTransportSequenceNumber n = p := by
  rw [RtpPacket.setTransportSequenceNumber,findExtension,h,HeaderExtension.getTypeId_empty]

theorem getD_slice (data : List Byte) {k n i : ℕ} (hi : i < n) :
    ((data.drop k).take n).getD i 0 = data.getD (k+i) 0 := by
  rw [List.getD_eq_getElem?_getD,List.getElem?_take_of_lt hi,List.getElem?_drop,
    List.getD_eq_getElem?_getD]

theorem take_eq_iff {data buffer : List Byte} {n : ℕ} (hn : n ≤ data.length)
    (hbuffer : buffer.length = n) :
    data.take n = buffer ↔ ∀ i < n, data.getD i 0 = buffer.getD i 0 := by
  constructor
  · intro h i hi
    rw [← h,List.getD_eq_getElem?_getD,List.getD_eq_getElem?_getD,List.getElem?_take_of_lt hi]
  · intro h
    apply List.ext_getElem (by rw [List.length_take,hbuffer]; omega)
    intro i hi hi'
    have hbyte := h i (by omega)
    rw [List.getD_eq_getElem?_getD,List.getD_eq_getElem?_getD,
      List.getElem?_eq_getElem (by omega),List.getElem?_eq_getElem hi'] at hbyte
    rwa [List.getElem_take]

/-- A byte behind new fields in the header. -/
def headerByte (second : Byte) (sequenceNumber : BitVec 16) (ssrc : BitVec 32) (data : List Byte)
    (i : ℕ) : Byte :=
  if i = 1 then second
  else if 2 ≤ i ∧ i < 4 then (storeUInt16BE sequenceNumber).getD (i-2) 0
  else if 8 ≤ i ∧ i < 12 then (storeUInt32BE ssrc).getD (i-8) 0
  else data.getD i 0

/-- The order in which the sender stores the fields. -/
theorem getD_sent {data : List Byte} (hlength : 12 ≤ data.length) (second : Byte)
    (sequenceNumber : BitVec 16) (ssrc : BitVec 32) :
    let sent := store (store (store data 8 (storeUInt32BE ssrc)) 1 [second]) 2
      (storeUInt16BE sequenceNumber)
    sent.length = data.length ∧ ∀ i, sent.getD i 0 = headerByte second sequenceNumber ssrc data i := by
  have hssrc : (store data 8 (storeUInt32BE ssrc)).length = data.length :=
    store_length (by rw [storeUInt32BE_length]; omega)
  have hsecond : (store (store data 8 (storeUInt32BE ssrc)) 1 [second]).length = data.length :=
    (store_length (by rw [List.length_singleton]; omega)).trans hssrc
  refine ⟨(store_length (by rw [storeUInt16BE_length]; omega)).trans hsecond,fun i => ?_⟩
  rw [getD_store (by rw [storeUInt16BE_length]; omega),
    getD_store (by rw [List.length_singleton]; omega),
    getD_store (by rw [storeUInt32BE_length]; omega),storeUInt16BE_length,storeUInt32BE_length,
    List.length_singleton,headerByte]
  by_cases hone : i = 1
  · subst hone
    rfl
  · have hnot : ¬(1 ≤ i ∧ i < 1+1) := by omega
    rw [if_neg hone,if_neg hnot]

theorem repaired_lengths {data : List Byte} (hlength : 12 ≤ data.length) (second : Byte)
    (sequenceNumber : BitVec 16) :
    (store data 1 [second]).length = data.length ∧
      (store (store data 1 [second]) 2 (storeUInt16BE sequenceNumber)).length = data.length := by
  have hsecond : (store data 1 [second]).length = data.length :=
    store_length (by rw [List.length_singleton]; omega)
  have hnumber : (store (store data 1 [second]) 2 (storeUInt16BE sequenceNumber)).length =
      data.length := (store_length (by rw [storeUInt16BE_length]; omega)).trans hsecond
  exact ⟨hsecond,hnumber⟩

/-- The order in which `RtxRepair` stores them. -/
theorem getD_repaired {data : List Byte} (hlength : 12 ≤ data.length) (second : Byte)
    (sequenceNumber : BitVec 16) (ssrc : BitVec 32) :
    let repaired := store (store (store data 1 [second]) 2 (storeUInt16BE sequenceNumber)) 8
      (storeUInt32BE ssrc)
    repaired.length = data.length ∧
      ∀ i, repaired.getD i 0 = headerByte second sequenceNumber ssrc data i := by
  have hlengths := repaired_lengths hlength second sequenceNumber
  refine ⟨(store_length (by rw [storeUInt32BE_length]; omega)).trans hlengths.2,fun i => ?_⟩
  rw [getD_store (by rw [storeUInt32BE_length]; omega),
    getD_store (by rw [storeUInt16BE_length]; omega),
    getD_store (by rw [List.length_singleton]; omega),storeUInt16BE_length,storeUInt32BE_length,
    List.length_singleton,headerByte]
  by_cases hssrc : 8 ≤ i ∧ i < 12
  · rw [if_pos hssrc,if_neg (by omega),if_neg (by omega),if_pos hssrc]
  · rw [if_neg hssrc,if_neg hssrc]
    by_cases hone : i = 1
    · subst hone
      rfl
    · have hnot : ¬(1 ≤ i ∧ i < 1+1) := by omega
      rw [if_neg hone,if_neg hnot]

section Bytes
variable {p : RtpPacket}

/-- The buffer before its header fields are set. -/
def rtxCopied (memory : ℕ → Byte) (packet : RtpPacket) : List Byte :=
  let buffer := (List.range (packet.size+kRtxHeaderSize)).map memory
  let buffer := store buffer 0 (packet.data.take packet.payloadOffset)
  let buffer := store buffer (packet.payloadOffset+kRtxHeaderSize)
    ((packet.data.drop packet.payloadOffset).take packet.payloadSize)
  store buffer packet.payloadOffset (storeUInt16BE packet.sequenceNumber)

/-- Byte by byte: the header, the original number, the payload, and in place of the padding
what the memory held. -/
theorem getD_rtxCopied (memory : ℕ → Byte) (hdata : p.data.length = p.size) :
    (rtxCopied memory p).length = p.size+2 ∧ ∀ i < p.size+2, (rtxCopied memory p).getD i 0 =
      if i < p.payloadOffset then p.data.getD i 0
      else if i < p.payloadOffset+2 then
        (storeUInt16BE p.sequenceNumber).getD (i-p.payloadOffset) 0
      else if i < p.payloadOffset+2+p.payloadSize then p.data.getD (i-2) 0
      else memory i := by
  have hsize : p.size = p.payloadOffset + p.payloadSize + p.paddingSize.toNat := rfl
  have htake : (p.data.take p.payloadOffset).length = p.payloadOffset :=
    List.length_take_of_le (by omega)
  have hpayload : ((p.data.drop p.payloadOffset).take p.payloadSize).length = p.payloadSize := by
    rw [List.length_take,List.length_drop]
    omega
  simp only [rtxCopied,kRtxHeaderSize]
  generalize hpool : (List.range (p.size+2)).map memory = pool
  have hlength : pool.length = p.size+2 := by rw [← hpool,List.length_map,List.length_range]
  have hmemory : ∀ i < p.size+2, pool.getD i 0 = memory i := by
    intro i hi
    rw [← hpool,List.getD_eq_getElem?_getD,List.getElem?_map,List.getElem?_range hi,
      Option.map_some,Option.getD_some]
  have hheader : (store pool 0 (p.data.take p.payloadOffset)).length = p.size+2 :=
    (store_length (by omega)).trans hlength
  have hbody : (store (store pool 0 (p.data.take p.payloadOffset)) (p.payloadOffset+2)
      ((p.data.drop p.payloadOffset).take p.payloadSize)).length = p.size+2 :=
    (store_length (by omega)).trans hheader
  refine ⟨(store_length (by rw [storeUInt16BE_length]; omega)).trans hbody,fun i hi => ?_⟩
  rw [getD_store (by rw [storeUInt16BE_length]; omega),getD_store (by omega),
    getD_store (by omega),hmemory i hi,htake,hpayload,storeUInt16BE_length]
  by_cases hin : i < p.payloadOffset
  · have hkept := getD_slice p.data (k := 0) hin
    rw [List.drop_zero,Nat.zero_add] at hkept
    rw [if_neg (by omega),if_neg (by omega),if_pos (by omega),if_pos hin,Nat.sub_zero,hkept]
  · rw [if_neg hin]
    by_cases hnumber : i < p.payloadOffset+2
    · rw [if_pos (by omega),if_pos hnumber]
    · rw [if_neg (by omega),if_neg hnumber]
      by_cases hcopied : i < p.payloadOffset+2+p.payloadSize
      · rw [if_pos (by omega),if_pos hcopied,getD_slice p.data (by omega)]
        congr 1
        omega
      · rw [if_neg (by omega),if_neg (by omega),if_neg hcopied]

theorem getD_rtxBytes (memory : ℕ → Byte) (payloadType : Byte) (ssrc : BitVec 32)
    (sequenceNumber : BitVec 16) (hheader : 12 ≤ p.payloadOffset) (hdata : p.data.length = p.size) :
    (rtxBytes memory p payloadType ssrc sequenceNumber).length = p.size+2 ∧
      ∀ i, (rtxBytes memory p payloadType ssrc sequenceNumber).getD i 0 =
        headerByte ((p.data.getD 1 0 &&& 0x80) ||| payloadType) sequenceNumber ssrc
          (rtxCopied memory p) i := by
  have hsize : p.size = p.payloadOffset + p.payloadSize + p.paddingSize.toNat := rfl
  have hcopied := getD_rtxCopied memory hdata
  have hlength : 12 ≤ (rtxCopied memory p).length := by omega
  have hbytes : rtxBytes memory p payloadType ssrc sequenceNumber =
      store (store (store (rtxCopied memory p) 8 (storeUInt32BE ssrc)) 1
        [(p.data.getD 1 0 &&& 0x80) ||| payloadType]) 2 (storeUInt16BE sequenceNumber) := by
    have hone : (store (rtxCopied memory p) 8 (storeUInt32BE ssrc)).getD 1 0 = p.data.getD 1 0 := by
      rw [getD_store (by rw [storeUInt32BE_length]; omega),if_neg (by omega),
        hcopied.2 1 (by omega),if_pos (by omega)]
    rw [← hone]
    exact if_neg (by simp only [kRtxHeaderSize,kMinRtpPacketLen]; omega)
  have hsent := getD_sent hlength ((p.data.getD 1 0 &&& 0x80) ||| payloadType) sequenceNumber ssrc
  rw [hbytes]
  exact ⟨hsent.1.trans hcopied.1,hsent.2⟩

end Bytes

/-! ### Fields read from bytes -/

theorem getD_storeUInt16BE_load {data : List Byte} {k i : ℕ} (h : k ≤ i ∧ i < k+2) :
    (storeUInt16BE (load16 data k)).getD (i-k) 0 = data.getD i 0 := by
  have hbytes : storeUInt16BE (load16 data k) = [data.getD k 0,data.getD (k+1) 0] := by
    simp only [storeUInt16BE,load16,loadUInt16BE,Nat.add_zero,List.cons.injEq,and_true]
    exact ⟨BitVec.extractLsb'_append_eq_left,BitVec.extractLsb'_append_eq_right⟩
  rw [hbytes]
  by_cases hfirst : i = k
  · rw [hfirst,Nat.sub_self]
    rfl
  · rw [show i-k = 1 by omega,show i = k+1 by omega]
    rfl

theorem storeUInt32BE_append (a b c d : Byte) :
    storeUInt32BE (a ++ b ++ c ++ d : BitVec 32) = [a,b,c,d] := by
  simp only [storeUInt32BE,List.cons.injEq,and_true]
  refine ⟨?_,?_,?_,?_⟩
  all_goals
    apply BitVec.eq_of_getLsbD_eq
    intro i hi
    simp only [BitVec.getLsbD_extractLsb',BitVec.getLsbD_append]
    grind

theorem getD_storeUInt32BE_load {data : List Byte} {k i : ℕ} (h : k ≤ i ∧ i < k+4) :
    (storeUInt32BE (load32 data k)).getD (i-k) 0 = data.getD i 0 := by
  rw [load32,loadUInt32BE,storeUInt32BE_append]
  have hi : i = k+(i-k) := by omega
  have hlt : i-k < 4 := by omega
  generalize i-k = j at hi hlt
  rw [hi]
  have hj : j = 0 ∨ j = 1 ∨ j = 2 ∨ j = 3 := by omega
  rcases hj with rfl | rfl | rfl | rfl
  · rfl
  · rfl
  · rfl
  · rfl

theorem load16_of_getD {data : List Byte} {k : ℕ} {v : BitVec 16}
    (h : ∀ i, k ≤ i → i < k+2 → data.getD i 0 = (storeUInt16BE v).getD (i-k) 0) :
    load16 data k = v := by
  have hfirst := h (k+0) (by omega) (by omega)
  have hsecond := h (k+1) (by omega) (by omega)
  rw [Nat.add_sub_cancel_left] at hfirst hsecond
  rw [load16,loadUInt16BE,hfirst,hsecond]
  exact HeaderExtension.loadUInt16BE_storeUInt16BE v []

/-- The second byte, there and back. -/
def restored (second payloadType : Byte) : Byte :=
  (((second &&& 0x80) ||| payloadType) &&& 0x80) ||| (second &&& 0x7f)

/-- The marker comes back unless the payload type takes its bit. -/
theorem restored_eq_iff (second payloadType : Byte) :
    restored second payloadType = second ↔
      payloadType.toNat < 128 ∨ (second &&& 0x80 != 0) = true := by
  have htop : ∀ b : Byte, b &&& 0x80 = if b.toNat < 128 then 0 else 0x80 := by decide
  have hclear : ∀ b : Byte, (b &&& 0x80 ||| 0) ||| (b &&& 0x7f) = b := by decide
  have hset : ∀ b : Byte,
      (b &&& 0x80 ||| 0x80) ||| (b &&& 0x7f) = b ↔ (b &&& 0x80 != 0) = true := by decide
  have hkept : (((second &&& 0x80) ||| payloadType) &&& 0x80) =
      (second &&& 0x80) ||| (payloadType &&& 0x80) := by
    apply BitVec.eq_of_getLsbD_eq
    intro i _
    simp only [BitVec.getLsbD_and,BitVec.getLsbD_or]
    grind
  rw [restored,hkept,htop payloadType]
  by_cases h : payloadType.toNat < 128
  · rw [if_pos h,hclear]
    exact iff_of_true rfl (.inl h)
  · rw [if_neg h,hset,or_iff_right h]

/-! ### There and back -/

/-- The receiving side: `Create`, then `RtxRepair` with the number in front of the payload. -/
def repair (bytes : List Byte) (payloadType : Byte) (ssrc : BitVec 32) : Option RtpPacket :=
  (create bytes).bind fun q => q.rtxRepair (load16 q.data q.payloadOffset) payloadType ssrc

def RoundTrips (memory : ℕ → Byte) (transportNumber : BitVec 16) (p : RtpPacket)
    (payloadType : Byte) (ssrc : BitVec 32) (sequenceNumber : BitVec 16) : Prop :=
  ∃ r, repair (rtxPlainBytes memory transportNumber p payloadType ssrc sequenceNumber)
    p.payloadType p.ssrc = some r ∧ r.data.take r.size = p.data.take p.size

theorem Parsed.size {buffer : List Byte} {p : RtpPacket} (h : Parsed buffer p) :
    p.size = buffer.length := by
  have hroom := h.room
  rw [RtpPacket.size,h.payloadSize]
  omega

section RoundTrip
variable {buffer : List Byte} {p : RtpPacket} {payloadType : Byte}

/-- What a retransmission has of the packet, besides fields that are set. -/
structure Carries (p : RtpPacket) (buffer : List Byte) (payloadType : Byte) (bytes : List Byte) :
    Prop where
  length : bytes.length = p.size+2
  second : bytes.getD 1 0 = (buffer.getD 1 0 &&& 0x80) ||| payloadType
  header : ∀ i < p.payloadOffset, i = 0 ∨ 4 ≤ i ∧ i < 8 ∨ 12 ≤ i →
    bytes.getD i 0 = buffer.getD i 0
  number : ∀ i, p.payloadOffset ≤ i → i < p.payloadOffset+2 →
    bytes.getD i 0 = (storeUInt16BE p.sequenceNumber).getD (i-p.payloadOffset) 0
  payload : ∀ i, p.payloadOffset ≤ i → i < p.payloadOffset+p.payloadSize →
    bytes.getD (i+2) 0 = buffer.getD i 0

theorem carries_rtxBytes (memory : ℕ → Byte) (payloadType : Byte) (ssrc : BitVec 32)
    (sequenceNumber : BitVec 16) (h : Parsed buffer p) :
    Carries p buffer payloadType (rtxBytes memory p payloadType ssrc sequenceNumber) := by
  have htwelve := h.twelve_le
  have hsize : p.size = p.payloadOffset + p.payloadSize + p.paddingSize.toNat := rfl
  have hdata : p.data.length = p.size := by rw [h.data,h.size]
  have hbytes := getD_rtxBytes memory payloadType ssrc sequenceNumber htwelve hdata
  have hcopied := (getD_rtxCopied memory hdata).2
  refine ⟨hbytes.1,?_,fun i hi hfield => ?_,fun i hlow hhigh => ?_,fun i hlow hhigh => ?_⟩
  · rw [hbytes.2,headerByte,if_pos rfl,h.data]
  · rw [hbytes.2,headerByte,if_neg (by omega),if_neg (by omega),if_neg (by omega),
      hcopied i (by omega),if_pos hi,h.data]
  · rw [hbytes.2,headerByte,if_neg (by omega),if_neg (by omega),if_neg (by omega),
      hcopied i (by omega),if_neg (by omega),if_pos hhigh]
  · rw [hbytes.2,headerByte,if_neg (by omega),if_neg (by omega),if_neg (by omega),
      hcopied (i+2) (by omega),if_neg (by omega),if_neg (by omega),if_pos (by omega),
      Nat.add_sub_cancel,h.data]

/-- The payload of the retransmission starts where that of the packet starts. -/
theorem Carries.payloadOffset {bytes : List Byte} (hbytes : Carries p buffer payloadType bytes)
    (h : Parsed buffer p) : ∃ r, parseExtensionPart bytes = some (p.payloadOffset,r) := by
  have htwelve := h.twelve_le
  have hsize : p.size = p.payloadOffset + p.payloadSize + p.paddingSize.toNat := rfl
  have hlength := hbytes.length
  cases h.extension with
  | intro r hextension =>
      exact ⟨r,parseExtensionPart_eq (hbytes.header 0 (by omega) (.inl rfl))
        (fun i hlow hhigh => hbytes.header i hhigh (.inr (.inr hlow))) (by omega) hextension⟩

theorem Accepts.unique {bytes : List Byte} {m m' : Byte} {n n' : ℕ} (h : Accepts bytes m n)
    (h' : Accepts bytes m' n') : m = m' ∧ n = n' := by
  cases h.extension with
  | intro r hr =>
      cases h'.extension with
      | intro r' hr' =>
          exact ⟨Option.some.inj (h.padding.symm.trans h'.padding),
            congrArg Prod.fst (Option.some.inj (hr.symm.trans hr'))⟩

/-- Without padding the retransmission is accepted. -/
theorem Carries.accepts {bytes : List Byte} (hbytes : Carries p buffer payloadType bytes)
    (h : Parsed buffer p) (hpadding : p.paddingSize = 0) : Accepts bytes 0 p.payloadOffset := by
  have htwelve := h.twelve_le
  have hsize : p.size = p.payloadOffset + p.payloadSize + p.paddingSize.toNat := rfl
  have hlength := hbytes.length
  have hfirst := hbytes.header 0 (by omega) (.inl rfl)
  have hoffset := hbytes.payloadOffset h
  refine ⟨by simp only [kMinRtpPacketLen]; omega,by rw [hfirst]; exact h.version,?_,?_,hoffset,?_⟩
  · cases hoffset with
    | intro r hr =>
        have hle := fixedHeaderSize_le hr
        omega
  · rw [parsePadding_zero,hfirst,← parsePadding_zero,← hpadding]
    exact h.padding
  · change p.payloadOffset+0 ≤ bytes.length
    omega

/-- Without padding the repaired packet has the bytes of the packet, but for the second. -/
theorem Carries.repair_eq_some {bytes : List Byte} (hbytes : Carries p buffer payloadType bytes)
    (h : Parsed buffer p) (hpadding : p.paddingSize = 0) :
    ∃ r, repair bytes p.payloadType p.ssrc = some r ∧ r.size = p.size ∧
      r.data.length = p.size+2 ∧ ∀ i < p.size, r.data.getD i 0 =
        if i = 1 then restored (buffer.getD 1 0) payloadType else buffer.getD i 0 := by
  have htwelve := h.twelve_le
  have hsize : p.size = p.payloadOffset + p.payloadSize := by
    rw [RtpPacket.size,hpadding]
    rfl
  have hlength := hbytes.length
  have haccepts := hbytes.accepts h hpadding
  cases create_of_accepts haccepts with
  | intro q hcreate =>
      have hq := parsed_of_create hcreate
      have hsame := hq.toAccepts.unique haccepts
      have hpayload : q.payloadSize = p.payloadSize+2 := by
        rw [hq.payloadSize,hsame.1,hsame.2]
        change bytes.length - p.payloadOffset - 0 = p.payloadSize+2
        omega
      have hnumber : load16 q.data q.payloadOffset = p.sequenceNumber := by
        rw [hq.data,hsame.2]
        exact load16_of_getD hbytes.number
      rw [repair,hcreate,Option.bind_some,hnumber,RtpPacket.rtxRepair,
        if_neg (by simp only [kRtxHeaderSize]; omega)]
      have hfields := getD_repaired (show 12 ≤ bytes.length by omega)
        ((bytes.getD 1 0 &&& 0x80) ||| p.payloadType) p.sequenceNumber p.ssrc
      simp only [setPayloadType,setSequenceNumber,setSsrc,hq.data,hsame.1,hsame.2,hpayload,
        if_true,kRtxHeaderSize,Nat.add_sub_cancel]
      generalize store (store (store bytes 1 [(bytes.getD 1 0 &&& 0x80) ||| p.payloadType]) 2
        (storeUInt16BE p.sequenceNumber)) 8 (storeUInt32BE p.ssrc) = data at hfields
      have hmoved : ((data.drop (p.payloadOffset+2)).take p.payloadSize).length = p.payloadSize := by
        rw [List.length_take,List.length_drop]
        omega
      refine ⟨_,rfl,?_,(store_length (by omega)).trans (hfields.1.trans hlength),fun i hi => ?_⟩
      · rw [RtpPacket.size,hsize]
        rfl
      rw [getD_store (by omega),hmoved]
      by_cases hmove : p.payloadOffset ≤ i
      · rw [if_pos (by omega),if_neg (by omega),getD_slice data (by omega),hfields.2,headerByte,
          if_neg (by omega),if_neg (by omega),if_neg (by omega),
          show p.payloadOffset+2+(i-p.payloadOffset) = i+2 by omega,
          hbytes.payload i hmove (by omega)]
      · rw [if_neg (by omega),hfields.2,headerByte,hbytes.second,h.payloadType,h.sequenceNumber,
          h.ssrc]
        by_cases hone : i = 1
        · rw [if_pos hone,if_pos hone]
          rfl
        rw [if_neg hone,if_neg hone]
        by_cases hnumber : 2 ≤ i ∧ i < 4
        · rw [if_pos hnumber,getD_storeUInt16BE_load hnumber]
        rw [if_neg hnumber]
        by_cases hssrc : 8 ≤ i ∧ i < 12
        · rw [if_pos hssrc,getD_storeUInt32BE_load hssrc]
        · rw [if_neg hssrc,hbytes.header i (by omega) (by omega)]

/-- With padding the repaired packet never has the size of the packet. -/
theorem Carries.repair_padded {bytes : List Byte} (hbytes : Carries p buffer payloadType bytes)
    (h : Parsed buffer p) (hpadding : p.paddingSize ≠ 0) {originalType : Byte}
    {originalSsrc : BitVec 32} {r : RtpPacket}
    (hr : repair bytes originalType originalSsrc = some r) :
    r.data.length = p.size+2 ∧ r.size ≠ p.size := by
  have htwelve := h.twelve_le
  have hlength := hbytes.length
  rw [repair] at hr
  cases hcreate : create bytes with
  | none => simp [hcreate] at hr
  | some q =>
      have hq := parsed_of_create hcreate
      have hoffset : q.payloadOffset = p.payloadOffset := by
        cases hbytes.payloadOffset h with
        | intro part hpart =>
            cases hq.extension with
            | intro part' hpart' =>
                exact congrArg Prod.fst (Option.some.inj (hpart'.symm.trans hpart))
      have hpadded : q.paddingSize ≠ 0 := by
        intro hzero
        have hpart := hq.padding
        rw [hzero,parsePadding_zero,hbytes.header 0 (by omega) (.inl rfl),← parsePadding_zero,
          h.padding,Option.some.injEq] at hpart
        exact hpadding hpart
      rw [hcreate,Option.bind_some,RtpPacket.rtxRepair] at hr
      simp only [setPayloadType,setSequenceNumber,setSsrc,hq.data,hoffset] at hr
      split at hr
      · simp at hr
      rename_i hpayload
      have hroom := hq.room
      have hsize := hq.payloadSize
      rw [hoffset] at hroom hsize
      simp only [kRtxHeaderSize] at hr hpayload
      have hfields := (getD_repaired (show 12 ≤ bytes.length by omega)
        ((bytes.getD 1 0 &&& 0x80) ||| originalType) (load16 bytes p.payloadOffset)
        originalSsrc).1
      rw [Option.some.injEq] at hr
      rw [← hr]
      constructor
      · rw [List.length_set,store_length,hfields,hlength]
        rw [List.length_take,List.length_drop,hfields]
        omega
      · have hsum : (q.paddingSize+2).toNat = (q.paddingSize.toNat+2)%256 := by
          rw [BitVec.toNat_add]
          rfl
        have hbyte := q.paddingSize.isLt
        simp only [RtpPacket.size,hsum]
        have hp : p.size = p.payloadOffset + p.payloadSize + p.paddingSize.toNat := rfl
        omega

/-- A packet comes back byte for byte exactly when it has no padding and the payload type of
the retransmission leaves its marker alone. -/
theorem roundTrips_iff (memory : ℕ → Byte) (transportNumber : BitVec 16) {buffer : List Byte}
    {p : RtpPacket} (h : create buffer = some p) (payloadType : Byte) (ssrc : BitVec 32)
    (sequenceNumber : BitVec 16) :
    RoundTrips memory transportNumber p payloadType ssrc sequenceNumber ↔
      p.paddingSize = 0 ∧ (payloadType.toNat < 128 ∨ p.marker = true) := by
  have hp := parsed_of_create h
  have hbytes := carries_rtxBytes memory payloadType ssrc sequenceNumber hp
  have hdata : p.data.take p.size = buffer := by
    rw [hp.data,hp.size,List.take_length]
  rw [RoundTrips,rtxPlainBytes,setTransportSequenceNumber_of_empty hp.extensionCapability,hdata,
    hp.marker,← restored_eq_iff]
  by_cases hpadding : p.paddingSize = 0
  · rw [and_iff_right hpadding]
    cases hbytes.repair_eq_some hp hpadding with
    | intro r hr =>
        have hsame : r.data.take r.size = buffer ↔
            restored (buffer.getD 1 0) payloadType = buffer.getD 1 0 := by
          rw [hr.2.1,take_eq_iff (by omega) hp.size.symm]
          constructor
          · intro hall
            have htwelve := hp.twelve_le
            have hroom := hp.room
            have hone := hall 1 (by rw [hp.size]; omega)
            rwa [hr.2.2.2 1 (by rw [hp.size]; omega),if_pos rfl] at hone
          · intro hone i hi
            rw [hr.2.2.2 i hi]
            by_cases hi1 : i = 1
            · rw [if_pos hi1,hone,hi1]
            · rw [if_neg hi1]
        rw [← hsame,hr.1]
        constructor
        · intro hright
          cases hright with
          | intro r' hr' =>
              rw [Option.some.inj hr'.1]
              exact hr'.2
        · exact fun htake => ⟨r,rfl,htake⟩
  · refine iff_of_false (fun hright => ?_) fun hboth => hpadding hboth.1
    cases hright with
    | intro r hr =>
        have hsize := hbytes.repair_padded hp hpadding hr.1
        have hlengths := congrArg List.length hr.2
        rw [List.length_take,hsize.1,← hp.size] at hlengths
        omega

end RoundTrip

/-- Number 7 of SSRC 9, with two bytes of payload. -/
def plainPacket : List Byte := [0x80,96,0,7,0,0,0,1,0,0,0,9,0xAA,0xBB]

theorem roundTrips_iff_plainPacket : ∃ p, create plainPacket = some p ∧
    (RoundTrips (fun _ => 0) 3 p 97 10 20 ↔
      p.paddingSize = 0 ∧ ((97 : Byte).toNat < 128 ∨ p.marker = true)) :=
  ⟨_,rfl,@roundTrips_iff (fun _ => 0) 3 plainPacket _ rfl 97 10 20⟩

/-- The last byte is padding, which is not copied. -/
def paddedPacket : List Byte := [0xA0,96,0,7,0,0,0,1,0,0,0,9,0xAA,1]

theorem repair_paddedPacket : (create paddedPacket).map (fun p =>
    repair (rtxPlainBytes (fun _ => 0) 0 p 97 10 20) p.payloadType p.ssrc) = some none := by
  decide

theorem not_roundTrips : ¬∀ (memory : ℕ → Byte) (n : BitVec 16) (buffer : List Byte) (p : RtpPacket),
    create buffer = some p → ∀ (payloadType : Byte) (ssrc : BitVec 32) (sequenceNumber : BitVec 16),
      RoundTrips memory n p payloadType ssrc sequenceNumber := by
  intro hall
  have hnone := repair_paddedPacket
  cases hcreate : create paddedPacket with
  | none => simp [hcreate] at hnone
  | some p =>
      rw [hcreate,Option.map_some,Option.some.injEq] at hnone
      cases hall (fun _ => 0) 0 paddedPacket p hcreate 97 10 20 with
      | intro r hr =>
          rw [hnone] at hr
          exact absurd hr.1 (by simp)

end Ylrtc.Subscribe
