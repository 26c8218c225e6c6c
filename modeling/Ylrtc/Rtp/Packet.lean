import Ylrtc.Rtp.HeaderExtension

/-!
# RTP packets

`RtpPacket` of `rtp_rtcp/rtp_packet.cpp`: the parsed header fields next to the
bytes they were read from. Every setter changes both.
-/
namespace Ylrtc.Packet
open ByteBuffer CursorParser HeaderExtension

abbrev kMinRtpPacketLen : ℕ := 12
abbrev kRtpVersion : Byte := 2
abbrev kOneByteExtensionProfileId : BitVec 16 := 0xBEDE
abbrev kTwoByteExtensionProfileId : BitVec 16 := 0x1000
abbrev kTwobyteExtensionProfileIdAppBitsFilter : BitVec 16 := 0xfff0
abbrev kOneByteExtensionHeaderLength : ℕ := 1
abbrev kTwoByteExtensionHeaderLength : ℕ := 2
abbrev kRtxHeaderSize : ℕ := 2

/-- `header_length` is set together with the offset, before anything reads it. -/
structure ExtensionInfo where
  id : Byte
  length : Byte := 0
  offset : BitVec 16 := 0
  headerLength : ℕ := 0
  deriving DecidableEq, Repr

structure PayloadInfo where
  keyframe : Bool := false
  deriving DecidableEq, Repr

/-- `behind` is what memory holds behind `data_`, where `atoi` may read on. -/
structure RtpPacket where
  marker : Bool
  payloadType : Byte
  paddingSize : Byte
  sequenceNumber : BitVec 16
  timestamp : BitVec 32
  ssrc : BitVec 32
  payloadOffset : ℕ
  payloadSize : ℕ
  extensionEntries : List ExtensionInfo
  extensionsSize : ℕ
  data : List Byte
  payloadInfo : PayloadInfo := {}
  extensionCapability : RtpHeaderExtensionCapability := {}
  behind : List Byte := []
  deriving DecidableEq, Repr

/-- Overwrite the bytes from an offset on. -/
def store (data : List Byte) (k : ℕ) (bytes : List Byte) : List Byte :=
  data.take k ++ bytes ++ data.drop (k+bytes.length)

def load16 (data : List Byte) (k : ℕ) : BitVec 16 := loadUInt16BE fun i => data.getD (k+i) 0
def load32 (data : List Byte) (k : ℕ) : BitVec 32 := loadUInt32BE fun i => data.getD (k+i) 0

/-! ### `Parse` -/

/-- `FindOrCreateExtensionInfo` and the assignments to the entry it finds. -/
def setExtensionInfo : List ExtensionInfo → ExtensionInfo → List ExtensionInfo
  | [],info => [info]
  | e::es,info => if e.id = info.id then info::es else e::setExtensionInfo es info

/-- Id and length of the extension at an offset. Nothing is where the loop ends. -/
def extensionHeader (profile : BitVec 16) (buffer : List Byte) (k : ℕ) : Option (Byte × Byte) :=
  let first := buffer.getD k 0
  if profile = kOneByteExtensionProfileId then
    let id := first >>> 4
    let length := 1 + (first &&& 0xf)
    if id = 15 || (id = 0 && length != 1) then none else some (id,length)
  else some (first,buffer.getD (k+1) 0)

def extensionHeaderLength (profile : BitVec 16) : ℕ :=
  if profile = kOneByteExtensionProfileId then kOneByteExtensionHeaderLength
  else kTwoByteExtensionHeaderLength

/-- The loop over the extensions. Each round moves at least one byte, so as many
rounds as there are bytes are enough. -/
def parseExtensions (profile : BitVec 16) (buffer : List Byte) (extensionOffset capacity : ℕ) :
    ℕ → ℕ → List ExtensionInfo → ℕ × List ExtensionInfo
  | 0,size,entries => (size,entries)
  | n+1,size,entries =>
      let headerLength := extensionHeaderLength profile
      if size + headerLength < capacity then
        if buffer.getD (extensionOffset+size) 0 = 0 then
          parseExtensions profile buffer extensionOffset capacity n (size+1) entries
        else
          match extensionHeader profile buffer (extensionOffset+size) with
          | none => (size,entries)
          | some (id,length) =>
              if size + headerLength + length.toNat > capacity then (size,entries)
              else
                let offset := extensionOffset + size + headerLength
                parseExtensions profile buffer extensionOffset capacity n
                  (size + headerLength + length.toNat)
                  (setExtensionInfo entries
                    ⟨id,length,BitVec.ofNat 16 offset,headerLength⟩)
      else (size,entries)

def supportedProfile (profile : BitVec 16) : Bool :=
  profile = kOneByteExtensionProfileId ||
    profile &&& kTwobyteExtensionProfileIdAppBitsFilter = kTwoByteExtensionProfileId

/-- Payload offset, size of the extensions and their entries. -/
def parseExtensionHeader (buffer : List Byte) (payloadOffset : ℕ) :
    Option (ℕ × ℕ × List ExtensionInfo) :=
  let extensionOffset := payloadOffset + 4
  if extensionOffset > buffer.length then none
  else
    let profile := load16 buffer payloadOffset
    let capacity := (load16 buffer (payloadOffset+2)).toNat*4
    if extensionOffset + capacity > buffer.length then none
    else if supportedProfile profile then
      some (extensionOffset+capacity,
        parseExtensions profile buffer extensionOffset capacity capacity 0 [])
    else some (extensionOffset+capacity,0,[])

/-- The padding size, which must not be zero if the padding bit is set. -/
def parsePadding (buffer : List Byte) : Option Byte :=
  if buffer.getD 0 0 &&& 0x20 = 0 then some 0
  else if buffer.getD (buffer.length-1) 0 = 0 then none
  else some (buffer.getD (buffer.length-1) 0)

/-- Header size without extensions. -/
def fixedHeaderSize (buffer : List Byte) : ℕ :=
  kMinRtpPacketLen + (buffer.getD 0 0 &&& 0x0f).toNat*4

def parseExtensionPart (buffer : List Byte) : Option (ℕ × ℕ × List ExtensionInfo) :=
  if buffer.getD 0 0 &&& 0x10 = 0 then some (fixedHeaderSize buffer,0,[])
  else parseExtensionHeader buffer (fixedHeaderSize buffer)

namespace RtpPacket

/-- `Create`: parse the buffer and keep a copy of it, with the memory behind the copy. -/
def create (buffer : List Byte) (behind : List Byte := []) : Option RtpPacket :=
  if buffer.length < kMinRtpPacketLen then none
  else if buffer.getD 0 0 >>> 6 ≠ kRtpVersion then none
  else if buffer.length < fixedHeaderSize buffer then none
  else
    match parsePadding buffer,parseExtensionPart buffer with
    | some paddingSize,some (payloadOffset,extensionsSize,extensionEntries) =>
        if payloadOffset + paddingSize.toNat > buffer.length then none
        else some {
          marker := buffer.getD 1 0 &&& 0x80 != 0
          payloadType := buffer.getD 1 0 &&& 0x7f
          paddingSize := paddingSize
          sequenceNumber := load16 buffer 2
          timestamp := load32 buffer 4
          ssrc := load32 buffer 8
          payloadOffset := payloadOffset
          payloadSize := buffer.length - payloadOffset - paddingSize.toNat
          extensionEntries := extensionEntries
          extensionsSize := extensionsSize
          data := buffer
          behind := behind }
    | _,_ => none

def size (p : RtpPacket) : ℕ := p.payloadOffset + p.payloadSize + p.paddingSize.toNat

/-- The copy constructor. It copies `Size()` bytes, and not `extension_capability_`. The memory
behind the copy is not the one behind the packet. -/
def copy (other : RtpPacket) (behind : List Byte := []) : RtpPacket :=
  { other with
    data := other.data.take other.size, extensionCapability := {}, behind := behind }

def setPayloadType (p : RtpPacket) (payloadType : Byte) : RtpPacket :=
  { p with payloadType := payloadType
           data := store p.data 1 [(p.data.getD 1 0 &&& 0x80) ||| payloadType] }

def setSequenceNumber (p : RtpPacket) (seqNo : BitVec 16) : RtpPacket :=
  { p with sequenceNumber := seqNo, data := store p.data 2 (storeUInt16BE seqNo) }

def setTimestamp (p : RtpPacket) (timestamp : BitVec 32) : RtpPacket :=
  { p with timestamp := timestamp, data := store p.data 4 (storeUInt32BE timestamp) }

def setSsrc (p : RtpPacket) (ssrc : BitVec 32) : RtpPacket :=
  { p with ssrc := ssrc, data := store p.data 8 (storeUInt32BE ssrc) }

/-- `RtxRepair`, which refuses an empty payload. A payload of one byte is undefined in the
source, and nothing comes of it here. The last byte of the padding is looked for behind the
two bytes that are gone. -/
def rtxRepair (p : RtpPacket) (sequenceNumber : BitVec 16) (payloadType : Byte)
    (ssrc : BitVec 32) : Option RtpPacket :=
  if p.payloadSize < kRtxHeaderSize then none
  else
    let p := ((p.setPayloadType payloadType).setSequenceNumber sequenceNumber).setSsrc ssrc
    let payload := (p.data.drop (p.payloadOffset+kRtxHeaderSize)).take (p.payloadSize-kRtxHeaderSize)
    let p := { p with data := store p.data p.payloadOffset payload }
    if p.paddingSize = 0 then some { p with payloadSize := p.payloadSize - kRtxHeaderSize }
    else
      let paddingSize := p.paddingSize + 2
      let last := p.payloadOffset + p.payloadSize + paddingSize.toNat - 1
      some { p with
        paddingSize := paddingSize
        payloadSize := p.payloadSize - kRtxHeaderSize
        data := p.data.set last (p.data.getD last 0 + 2) }

def isKeyFrame (p : RtpPacket) : Bool := p.payloadInfo.keyframe

def setExtensionCapability (p : RtpPacket) (c : RtpHeaderExtensionCapability) : RtpPacket :=
  { p with extensionCapability := c }

/-- The entry an extension type has in this packet. -/
def findExtension (p : RtpPacket) (type : RTPHeaderExtensionType) : Option ExtensionInfo :=
  match p.extensionCapability.getTypeId type with
  | none => none
  | some id => p.extensionEntries.find? fun extension => extension.id.toNat = id

def getExtensionValue {α : Type} (p : RtpPacket) (extension : Extension α) : Option α :=
  match p.findExtension extension.kType with
  | none => none
  | some result =>
      extension.parse ((p.data ++ p.behind).drop result.offset.toNat) result.length

/-- `SetExtensionValue<TransportSequenceNumberExtension>`, the only instance there is. -/
def setTransportSequenceNumber (p : RtpPacket) (value : BitVec 16) : RtpPacket :=
  match p.findExtension TransportSequenceNumberExtension.kType with
  | none => p
  | some result =>
      let k := result.offset.toNat
      let value := TransportSequenceNumberExtension.serialize (p.data.drop k) result.length value
      { p with data := p.data.take k ++ value }

/-- One entry of the loop of `UpdateExtensionCapability`, with the bytes. A type
that the new capability lacks dereferences an empty optional in the source; the
entry is left alone here. -/
def updateEntry (old new : RtpHeaderExtensionCapability) (data : List Byte)
    (entry : ExtensionInfo) : List Byte × ExtensionInfo :=
  match (old.getIdType entry.id.toNat).bind new.getTypeId with
  | none => (data,entry)
  | some expectId =>
      if expectId = entry.id.toNat then (data,entry)
      else
        let headerOffset := entry.offset.toNat - entry.headerLength
        let header :=
          if entry.headerLength = kOneByteExtensionHeaderLength then
            (data.getD headerOffset 0 &&& 0xf) ||| (BitVec.ofInt 8 (expectId*16))
          else BitVec.ofInt 8 expectId
        (store data headerOffset [header],{ entry with id := BitVec.ofInt 8 expectId })

def updateEntries (old new : RtpHeaderExtensionCapability) :
    List Byte → List ExtensionInfo → List Byte × List ExtensionInfo
  | data,[] => (data,[])
  | data,e::es =>
      let first := updateEntry old new data e
      let rest := updateEntries old new first.1 es
      (rest.1,first.2::rest.2)

def updateExtensionCapability (p : RtpPacket) (newCapability : RtpHeaderExtensionCapability) :
    RtpPacket :=
  let r := updateEntries p.extensionCapability newCapability p.data p.extensionEntries
  { p with data := r.1, extensionEntries := r.2, extensionCapability := newCapability }

/-! ### Layout -/

/-- The header, the extensions inside it and the bytes behind it. -/
structure Valid (p : RtpPacket) : Prop where
  header : kMinRtpPacketLen ≤ p.payloadOffset
  size : p.size ≤ p.data.length
  entries : ∀ e ∈ p.extensionEntries, kMinRtpPacketLen ≤ e.offset.toNat ∧
    e.offset.toNat + e.length.toNat ≤ p.payloadOffset

end RtpPacket

theorem store_length {data bytes : List Byte} {k : ℕ} (h : k+bytes.length ≤ data.length) :
    (store data k bytes).length = data.length := by
  simp only [store,List.length_append,List.length_take,List.length_drop]
  omega

theorem getD_store {data bytes : List Byte} {k : ℕ} (h : k+bytes.length ≤ data.length) (i : ℕ) :
    (store data k bytes).getD i 0 =
      if k ≤ i ∧ i < k+bytes.length then bytes.getD (i-k) 0 else data.getD i 0 := by
  have htake : (data.take k).length = k := List.length_take_of_le (by omega)
  rw [store,List.append_assoc,List.getD_eq_getElem?_getD]
  by_cases hbefore : i < k
  · rw [if_neg (by omega),List.getElem?_append_left (by omega),List.getElem?_take_of_lt hbefore,
      List.getD_eq_getElem?_getD]
  · rw [List.getElem?_append_right (by omega),htake]
    by_cases hinside : i-k < bytes.length
    · rw [if_pos (by omega),List.getElem?_append_left hinside,List.getD_eq_getElem?_getD]
    · rw [if_neg (by omega),List.getElem?_append_right (by omega),List.getElem?_drop,
        List.getD_eq_getElem?_getD]
      congr 2
      omega

theorem load32_of_getD {data : List Byte} {k : ℕ} {v : BitVec 32}
    (h : ∀ i, k ≤ i → i < k+4 → data.getD i 0 = (storeUInt32BE v).getD (i-k) 0) :
    load32 data k = v := by
  have hbytes : ∀ j < 4, data.getD (k+j) 0 = (storeUInt32BE v).getD j 0 := by
    intro j hj
    have := h (k+j) (by omega) (by omega)
    rwa [Nat.add_sub_cancel_left] at this
  rw [load32,loadUInt32BE,hbytes 0 (by omega),hbytes 1 (by omega),hbytes 2 (by omega),
    hbytes 3 (by omega)]
  simp only [storeUInt32BE,List.getD_cons_zero,List.getD_cons_succ]
  rw [BitVec.extractLsb'_append_extractLsb'_eq_extractLsb' (by rfl),
    BitVec.extractLsb'_append_extractLsb'_eq_extractLsb' (by rfl),
    BitVec.extractLsb'_append_extractLsb'_eq_extractLsb' (by rfl)]
  simp

/-- Bytes behind what was overwritten. -/
theorem drop_store {data bytes : List Byte} {j k : ℕ} (h : k+bytes.length ≤ j)
    (hk : k ≤ data.length) : (store data k bytes).drop j = data.drop j := by
  have hlength : (data.take k ++ bytes).length = k+bytes.length := by
    rw [List.length_append,List.length_take]
    omega
  rw [store,List.drop_append,List.drop_eq_nil_of_le (by omega),List.nil_append,List.drop_drop,
    hlength]
  congr 1
  omega

theorem mem_setExtensionInfo {entries : List ExtensionInfo} {info e : ExtensionInfo}
    (h : e ∈ setExtensionInfo entries info) : e = info ∨ e ∈ entries := by
  induction entries with
  | nil => exact Or.inl (List.mem_singleton.mp h)
  | cons first rest ih =>
      rw [setExtensionInfo] at h
      split at h
      · cases List.mem_cons.mp h with
        | inl heq => exact Or.inl heq
        | inr hrest => exact Or.inr (List.mem_cons_of_mem _ hrest)
      · cases List.mem_cons.mp h with
        | inl heq => exact Or.inr (heq ▸ List.mem_cons_self)
        | inr hrest =>
            cases ih hrest with
            | inl heq => exact Or.inl heq
            | inr hmem => exact Or.inr (List.mem_cons_of_mem _ hmem)

/-- What holds of every element that fits into the block holds of the entries. -/
theorem parseExtensions_forall {P : ExtensionInfo → Prop} {profile : BitVec 16}
    {buffer : List Byte} {extensionOffset capacity : ℕ}
    (hnew : ∀ size (id length : Byte),
      size + extensionHeaderLength profile + length.toNat ≤ capacity →
        P ⟨id,length,BitVec.ofNat 16 (extensionOffset + size + extensionHeaderLength profile),
          extensionHeaderLength profile⟩)
    {n size : ℕ} {entries : List ExtensionInfo} (h : ∀ e ∈ entries, P e) :
    ∀ e ∈ (parseExtensions profile buffer extensionOffset capacity n size entries).2, P e := by
  induction n generalizing size entries with
  | zero => exact h
  | succ n ih =>
      rw [parseExtensions]
      split
      · split
        · exact ih h
        · cases extensionHeader profile buffer (extensionOffset+size) with
          | none => exact h
          | some header =>
              simp only
              split
              · exact h
              · rename_i hfits
                apply ih
                intro e he
                cases mem_setExtensionInfo he with
                | inr hold => exact h e hold
                | inl heq =>
                    rw [heq]
                    exact hnew size header.1 header.2 (not_lt.mp hfits)
      · exact h

/-- Every entry lies between the extension header and the payload. -/
theorem parseExtensions_entries {profile : BitVec 16} {buffer : List Byte}
    {extensionOffset capacity : ℕ} (hsize : extensionOffset + capacity < 65536) {n size : ℕ}
    {entries : List ExtensionInfo}
    (h : ∀ e ∈ entries, extensionOffset ≤ e.offset.toNat ∧
      e.offset.toNat + e.length.toNat ≤ extensionOffset + capacity) :
    ∀ e ∈ (parseExtensions profile buffer extensionOffset capacity n size entries).2,
      extensionOffset ≤ e.offset.toNat ∧
        e.offset.toNat + e.length.toNat ≤ extensionOffset + capacity := by
  apply parseExtensions_forall _ h
  intro size id length hfits
  simp only [BitVec.toNat_ofNat]
  omega

/-- No entry ends behind the block, even where an offset is too large for its field. -/
theorem parseExtensions_ends (profile : BitVec 16) (buffer : List Byte)
    (extensionOffset capacity n size : ℕ) :
    ∀ e ∈ (parseExtensions profile buffer extensionOffset capacity n size []).2,
      e.offset.toNat + e.length.toNat ≤ extensionOffset + capacity := by
  apply parseExtensions_forall
  · intro size id length hfits
    have hmod := Nat.mod_le (extensionOffset + size + extensionHeaderLength profile) (2^16)
    simp only [BitVec.toNat_ofNat]
    omega
  · exact fun e he => absurd he List.not_mem_nil

namespace RtpPacket

theorem parseExtensionHeader_entries {buffer : List Byte} {offset payloadOffset size : ℕ}
    {entries : List ExtensionInfo} (hlength : buffer.length < 65536)
    (h : parseExtensionHeader buffer offset = some (payloadOffset,size,entries)) :
    offset ≤ payloadOffset ∧ ∀ e ∈ entries, offset ≤ e.offset.toNat ∧
      e.offset.toNat + e.length.toNat ≤ payloadOffset := by
  simp only [parseExtensionHeader] at h
  split at h
  · simp at h
  split at h
  · simp at h
  split at h
  · rename_i hfits _
    rw [Option.some.injEq,Prod.mk.injEq] at h
    obtain ⟨hoffset,hparsed⟩ := h
    constructor
    · omega
    · intro e he
      rw [← show _ = entries from congrArg Prod.snd hparsed] at he
      have hentries := parseExtensions_entries (by omega)
        (fun e he => absurd he List.not_mem_nil) e he
      omega
  · rw [Option.some.injEq,Prod.mk.injEq,Prod.mk.injEq] at h
    obtain ⟨hoffset,_,hentries⟩ := h
    subst hentries
    exact ⟨by omega,fun e he => absurd he List.not_mem_nil⟩

/-- A datagram that is accepted is a valid packet. -/
theorem create_valid {buffer behind : List Byte} {p : RtpPacket} (hlength : buffer.length < 65536)
    (h : create buffer behind = some p) : p.Valid := by
  unfold create at h
  split at h
  · simp at h
  split at h
  · simp at h
  split at h
  · simp at h
  split at h
  · rename_i padding payloadOffset size entries _ hparsed
    split at h
    · simp at h
    · rename_i hfits
      rw [Option.some.injEq] at h
      have hfixed : kMinRtpPacketLen ≤ fixedHeaderSize buffer := Nat.le_add_right _ _
      have hlayout : fixedHeaderSize buffer ≤ payloadOffset ∧ ∀ e ∈ entries,
          fixedHeaderSize buffer ≤ e.offset.toNat ∧
            e.offset.toNat + e.length.toNat ≤ payloadOffset := by
        rw [parseExtensionPart] at hparsed
        split at hparsed
        · rw [Option.some.injEq,Prod.mk.injEq,Prod.mk.injEq] at hparsed
          obtain ⟨hoffset,_,hentries⟩ := hparsed
          subst hentries
          exact ⟨Nat.le_of_eq hoffset,fun e he => absurd he List.not_mem_nil⟩
        · exact parseExtensionHeader_entries hlength hparsed
      subst h
      constructor
      · exact Nat.le_trans hfixed hlayout.1
      · simp only [RtpPacket.size]
        omega
      · intro e he
        exact ⟨Nat.le_trans hfixed (hlayout.2 e he).1,(hlayout.2 e he).2⟩
  · simp at h

/-! ### What the setters keep -/

theorem Valid.twelve_le {p : RtpPacket} (h : p.Valid) : 12 ≤ p.data.length := by
  have hheader : 12 ≤ p.payloadOffset := h.header
  have hsize := h.size
  rw [RtpPacket.size] at hsize
  omega

theorem Valid.header_le {p : RtpPacket} (h : p.Valid) : p.payloadOffset ≤ p.data.length := by
  have := h.size
  rw [RtpPacket.size] at this
  omega

theorem Valid.copy {p : RtpPacket} (h : p.Valid) (behind : List Byte) :
    (p.copy behind).Valid := by
  refine ⟨h.header,?_,h.entries⟩
  change p.size ≤ (p.data.take p.size).length
  rw [List.length_take]
  exact Nat.le_min.mpr ⟨Nat.le_refl _,h.size⟩

/-- A change of bytes that keeps their number. -/
theorem Valid.withData {p : RtpPacket} (h : p.Valid) {data : List Byte}
    (hlength : data.length = p.data.length) : { p with data := data }.Valid :=
  ⟨h.header,by rw [hlength]; exact h.size,h.entries⟩

theorem Valid.setSequenceNumber {p : RtpPacket} (h : p.Valid) (seqNo : BitVec 16) :
    (p.setSequenceNumber seqNo).Valid := by
  have hdata := h.twelve_le
  have hlength : (store p.data 2 (storeUInt16BE seqNo)).length = p.data.length :=
    store_length (by rw [storeUInt16BE_length]; omega)
  exact ⟨h.header,by change p.size ≤ (store _ _ _).length; rw [hlength]; exact h.size,h.entries⟩

theorem Valid.setTimestamp {p : RtpPacket} (h : p.Valid) (timestamp : BitVec 32) :
    (p.setTimestamp timestamp).Valid := by
  have hdata := h.twelve_le
  have hlength : (store p.data 4 (storeUInt32BE timestamp)).length = p.data.length :=
    store_length (by rw [storeUInt32BE_length]; omega)
  exact ⟨h.header,by change p.size ≤ (store _ _ _).length; rw [hlength]; exact h.size,h.entries⟩

theorem findExtension_mem {p : RtpPacket} {type : RTPHeaderExtensionType} {e : ExtensionInfo}
    (h : p.findExtension type = some e) : e ∈ p.extensionEntries := by
  rw [findExtension] at h
  split at h
  · simp at h
  · exact List.mem_of_find?_eq_some h

theorem Valid.entry_fits {p : RtpPacket} (h : p.Valid) {e : ExtensionInfo}
    (he : e ∈ p.extensionEntries) : e.offset.toNat + e.length.toNat ≤ p.data.length :=
  Nat.le_trans (h.entries e he).2 h.header_le

theorem Valid.setTransportSequenceNumber {p : RtpPacket} (h : p.Valid) (value : BitVec 16) :
    (p.setTransportSequenceNumber value).Valid := by
  rw [RtpPacket.setTransportSequenceNumber]
  split
  · exact h
  · rename_i e hfound
    apply h.withData
    have hfits := h.entry_fits (findExtension_mem hfound)
    rw [TransportSequenceNumberExtension.serialize]
    split
    · rw [List.take_append_drop]
    · rename_i hsize
      have htwo : e.length.toNat = 2 := by
        rw [not_not] at hsize
        rw [hsize]
        rfl
      simp only [List.length_append,List.length_take,List.length_drop,storeUInt16BE_length]
      omega

/-- Without a capability of its own a packet takes the new one as it is. -/
theorem updateExtensionCapability_of_empty {p : RtpPacket} (h : p.extensionCapability = {})
    (c : RtpHeaderExtensionCapability) :
    p.updateExtensionCapability c = { p with extensionCapability := c } := by
  have hentries : ∀ data es, updateEntries {} c data es = (data,es) := by
    intro data es
    induction es with
    | nil => rfl
    | cons e es ih => rw [updateEntries,updateEntry,getIdType_empty,Option.bind_none,ih]
  rw [RtpPacket.updateExtensionCapability,h,hentries]

/-- The transport-wide number that bytes with this packet's extensions carry, for
who has negotiated `c`. -/
def transportSequenceNumberUnder (p : RtpPacket) (c : RtpHeaderExtensionCapability)
    (bytes : List Byte) : Option (BitVec 16) :=
  { p with data := bytes, extensionCapability := c, behind := [] }.getExtensionValue
    transportSequenceNumberExtension

/-- A packet that has the capability carries the number it was given. -/
theorem transportSequenceNumberUnder_set {p : RtpPacket} (h : p.Valid) {value n : BitVec 16}
    (hn : (p.setTransportSequenceNumber value).transportSequenceNumberUnder p.extensionCapability
      (p.setTransportSequenceNumber value).data = some n) : n = value := by
  rw [transportSequenceNumberUnder,getExtensionValue] at hn
  split at hn
  · simp at hn
  · rename_i e hfound
    have hfound' : p.findExtension TransportSequenceNumberExtension.kType = some e := by
      rw [← hfound,RtpPacket.setTransportSequenceNumber]
      split <;> rfl
    have hdata : (p.setTransportSequenceNumber value).data = p.data.take e.offset.toNat ++
        TransportSequenceNumberExtension.serialize (p.data.drop e.offset.toNat) e.length value := by
      simp only [RtpPacket.setTransportSequenceNumber,hfound']
    have hfits := h.entry_fits (findExtension_mem hfound')
    have htake : (p.data.take e.offset.toNat).length = e.offset.toNat := by
      rw [List.length_take]
      omega
    simp only [hdata,List.append_nil] at hn
    rw [List.drop_append_of_le_length (by omega),List.drop_eq_nil_of_le (by omega),
      List.nil_append] at hn
    exact TransportSequenceNumberExtension.parse_serialized _ _ _ hn

theorem load_take_two (data : List Byte) :
    (loadUInt16BE fun i => data.getD i 0) = loadUInt16BE fun i => (data.take 2).getD i 0 := by
  simp only [loadUInt16BE]
  congr 1
  · cases data <;> rfl
  · cases data with
    | nil => rfl
    | cons a rest => cases rest <;> rfl

/-- Only the extension's own two bytes matter. -/
theorem transportSequenceNumberUnder_congr {p : RtpPacket} {c : RtpHeaderExtensionCapability}
    {bytes bytes' : List Byte}
    (h : ∀ e ∈ p.extensionEntries, e.length = 2 →
      (bytes.drop e.offset.toNat).take 2 = (bytes'.drop e.offset.toNat).take 2) :
    p.transportSequenceNumberUnder c bytes = p.transportSequenceNumberUnder c bytes' := by
  simp only [transportSequenceNumberUnder,getExtensionValue,List.append_nil]
  have hsame : { p with
      data := bytes, extensionCapability := c, behind := [] }.findExtension
        transportSequenceNumberExtension.kType = { p with
      data := bytes', extensionCapability := c, behind := [] }.findExtension
        transportSequenceNumberExtension.kType := rfl
  rw [hsame]
  cases hfound : { p with
      data := bytes', extensionCapability := c, behind := [] }.findExtension
        transportSequenceNumberExtension.kType with
  | none => rfl
  | some e =>
      simp only [transportSequenceNumberExtension,TransportSequenceNumberExtension.parse]
      split
      · rfl
      · rename_i hsize
        rw [not_not] at hsize
        have hmem := findExtension_mem (p := { p with
          data := bytes', extensionCapability := c, behind := [] }) hfound
        rw [load_take_two,h e hmem hsize,← load_take_two]

end RtpPacket
end Ylrtc.Packet
